import CallProbe.Ancestry.Hierarchy

/-!
# The built-in hierarchy

The library types that the built-in catalogue is about, and their neighbourhood. Any
other type of the library counts as a plain subclass of the root class.
-/

namespace CallProbe.StandardHierarchy

/-- A class that extends the root class. -/
def plainClass (name : String) (interfaces : List String) : String × Declaration :=
  (name, { superclass := some rootClass, interfaces })

/-- A class that extends another one. -/
def subclass (name superclass : String) (interfaces : List String) : String × Declaration :=
  (name, { superclass := some superclass, interfaces })

/-- An interface, or the root class. -/
def noClass (name : String) (interfaces : List String) : String × Declaration :=
  (name, { superclass := none, interfaces })

def declarations : List (String × Declaration) := [
  noClass "java/lang/Object" [],
  noClass "java/io/Serializable" [],
  noClass "java/lang/Comparable" [],
  noClass "java/lang/CharSequence" [],
  noClass "java/lang/Iterable" [],
  noClass "java/lang/Cloneable" [],
  plainClass "java/lang/String"
    ["java/io/Serializable", "java/lang/Comparable", "java/lang/CharSequence"],
  plainClass "java/lang/StringBuilder" ["java/lang/CharSequence"],
  plainClass "java/lang/Number" ["java/io/Serializable"],
  subclass "java/lang/Integer" "java/lang/Number" ["java/lang/Comparable"],
  subclass "java/lang/Long" "java/lang/Number" ["java/lang/Comparable"],
  subclass "java/lang/Double" "java/lang/Number" ["java/lang/Comparable"],
  subclass "java/lang/Float" "java/lang/Number" ["java/lang/Comparable"],
  subclass "java/lang/Short" "java/lang/Number" ["java/lang/Comparable"],
  subclass "java/lang/Byte" "java/lang/Number" ["java/lang/Comparable"],
  plainClass "java/lang/Boolean" ["java/io/Serializable", "java/lang/Comparable"],
  plainClass "java/lang/Character" ["java/io/Serializable", "java/lang/Comparable"],
  plainClass "java/lang/Math" [],
  plainClass "java/lang/System" [],
  plainClass "java/util/Objects" [],
  noClass "java/util/Collection" ["java/lang/Iterable"],
  noClass "java/util/List" ["java/util/Collection"],
  noClass "java/util/Set" ["java/util/Collection"],
  noClass "java/util/Map" [],
  plainClass "java/util/AbstractCollection" ["java/util/Collection"],
  subclass "java/util/AbstractList" "java/util/AbstractCollection" ["java/util/List"],
  subclass "java/util/ArrayList" "java/util/AbstractList"
    ["java/util/List", "java/lang/Cloneable", "java/io/Serializable"],
  subclass "java/util/LinkedList" "java/util/AbstractList"
    ["java/util/List", "java/lang/Cloneable", "java/io/Serializable"],
  subclass "java/util/AbstractSet" "java/util/AbstractCollection" ["java/util/Set"],
  subclass "java/util/HashSet" "java/util/AbstractSet"
    ["java/util/Set", "java/lang/Cloneable", "java/io/Serializable"],
  subclass "java/util/TreeSet" "java/util/AbstractSet"
    ["java/lang/Cloneable", "java/io/Serializable"],
  plainClass "java/util/AbstractMap" ["java/util/Map"],
  subclass "java/util/HashMap" "java/util/AbstractMap"
    ["java/util/Map", "java/lang/Cloneable", "java/io/Serializable"],
  subclass "java/util/LinkedHashMap" "java/util/HashMap" ["java/util/Map"],
  subclass "java/util/TreeMap" "java/util/AbstractMap"
    ["java/lang/Cloneable", "java/io/Serializable"],
  plainClass "java/util/regex/Pattern" ["java/io/Serializable"],
  noClass "java/util/regex/MatchResult" [],
  plainClass "java/util/regex/Matcher" ["java/util/regex/MatchResult"],
  plainClass "java/time/LocalDate" ["java/io/Serializable", "java/lang/Comparable"],
  plainClass "java/time/LocalDateTime" ["java/io/Serializable", "java/lang/Comparable"]]

def hierarchy : Hierarchy :=
  declarations.foldl (fun hierarchy (name, declaration) => hierarchy.declare name declaration)
    (({} : Hierarchy).assume "java/")

end CallProbe.StandardHierarchy
