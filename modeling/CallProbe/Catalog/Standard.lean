import CallProbe.Catalog.Registry

/-!
# The built-in catalogue

The library methods that are stood in for, type by type, and the function of the
runtime package that stands in for each.
-/

namespace CallProbe.StandardCatalog

/-- The package of the classes that declare the functions. -/
def runtimePackage : String := "classweave/runtime"

def onInstance (name descriptor : String) (category : Category) : FunctionSpec :=
  { name, replaces := name, forStatic := false, descriptor, category }

def onClass (name descriptor : String) (category : Category) : FunctionSpec :=
  { name, replaces := name, forStatic := true, descriptor, category }

def string : List FunctionSpec := [
  onInstance "equals" "(Ljava/lang/String;Ljava/lang/Object;Ljava/lang/String;)Z" .boolean,
  onInstance "equalsIgnoreCase"
    "(Ljava/lang/String;Ljava/lang/String;Ljava/lang/String;)Z" .boolean,
  onInstance "startsWith" "(Ljava/lang/String;Ljava/lang/String;Ljava/lang/String;)Z" .boolean,
  onInstance "startsWith" "(Ljava/lang/String;Ljava/lang/String;ILjava/lang/String;)Z" .boolean,
  onInstance "endsWith" "(Ljava/lang/String;Ljava/lang/String;Ljava/lang/String;)Z" .boolean,
  onInstance "contains" "(Ljava/lang/String;Ljava/lang/CharSequence;Ljava/lang/String;)Z" .boolean,
  onInstance "contentEquals"
    "(Ljava/lang/String;Ljava/lang/CharSequence;Ljava/lang/String;)Z" .boolean,
  onInstance "isEmpty" "(Ljava/lang/String;Ljava/lang/String;)Z" .boolean,
  onInstance "matches" "(Ljava/lang/String;Ljava/lang/String;Ljava/lang/String;)Z" .boolean]

def integer : List FunctionSpec := [
  onClass "parseInt" "(Ljava/lang/String;Ljava/lang/String;)I" .exception,
  onClass "valueOf" "(Ljava/lang/String;Ljava/lang/String;)Ljava/lang/Integer;" .exception,
  onInstance "equals" "(Ljava/lang/Integer;Ljava/lang/Object;Ljava/lang/String;)Z" .boolean]

def long : List FunctionSpec := [
  onClass "parseLong" "(Ljava/lang/String;Ljava/lang/String;)J" .exception,
  onClass "valueOf" "(Ljava/lang/String;Ljava/lang/String;)Ljava/lang/Long;" .exception]

def double : List FunctionSpec := [
  onClass "parseDouble" "(Ljava/lang/String;Ljava/lang/String;)D" .exception,
  onClass "valueOf" "(Ljava/lang/String;Ljava/lang/String;)Ljava/lang/Double;" .exception]

def boolean : List FunctionSpec := [
  onClass "parseBoolean" "(Ljava/lang/String;Ljava/lang/String;)Z" .boolean]

def objects : List FunctionSpec := [
  onClass "equals" "(Ljava/lang/Object;Ljava/lang/Object;Ljava/lang/String;)Z" .boolean]

def collection : List FunctionSpec := [
  onInstance "contains" "(Ljava/util/Collection;Ljava/lang/Object;Ljava/lang/String;)Z" .boolean,
  onInstance "containsAll"
    "(Ljava/util/Collection;Ljava/util/Collection;Ljava/lang/String;)Z" .boolean,
  onInstance "remove" "(Ljava/util/Collection;Ljava/lang/Object;Ljava/lang/String;)Z" .boolean,
  onInstance "isEmpty" "(Ljava/util/Collection;Ljava/lang/String;)Z" .boolean]

def map : List FunctionSpec := [
  onInstance "containsKey" "(Ljava/util/Map;Ljava/lang/Object;Ljava/lang/String;)Z" .boolean,
  onInstance "containsValue" "(Ljava/util/Map;Ljava/lang/Object;Ljava/lang/String;)Z" .boolean,
  onInstance "isEmpty" "(Ljava/util/Map;Ljava/lang/String;)Z" .boolean]

def pattern : List FunctionSpec := [
  onClass "matches" "(Ljava/lang/String;Ljava/lang/CharSequence;Ljava/lang/String;)Z" .boolean]

def matcher : List FunctionSpec := [
  onInstance "matches" "(Ljava/util/regex/Matcher;Ljava/lang/String;)Z" .boolean,
  onInstance "find" "(Ljava/util/regex/Matcher;Ljava/lang/String;)Z" .boolean]

def localDate : List FunctionSpec := [
  onClass "parse" "(Ljava/lang/CharSequence;Ljava/lang/String;)Ljava/time/LocalDate;" .exception]

def localDateTime : List FunctionSpec := [
  onClass "parse"
    "(Ljava/lang/CharSequence;Ljava/lang/String;)Ljava/time/LocalDateTime;" .exception]

def system : List FunctionSpec := [
  onClass "getProperty" "(Ljava/lang/String;Ljava/lang/String;)Ljava/lang/String;" .tracker,
  onClass "getenv" "(Ljava/lang/String;Ljava/lang/String;)Ljava/lang/String;" .tracker]

/-- Target type, name of the declaring class and functions, in order of registration. -/
def entries : List (String × String × List FunctionSpec) := [
  ("java/lang/String", "StringClassReplacement", string),
  ("java/lang/Integer", "IntegerClassReplacement", integer),
  ("java/lang/Long", "LongClassReplacement", long),
  ("java/lang/Double", "DoubleClassReplacement", double),
  ("java/lang/Boolean", "BooleanClassReplacement", boolean),
  ("java/util/Objects", "ObjectsClassReplacement", objects),
  ("java/util/Collection", "CollectionClassReplacement", collection),
  ("java/util/Map", "MapClassReplacement", map),
  ("java/util/regex/Pattern", "PatternClassReplacement", pattern),
  ("java/util/regex/Matcher", "MatcherClassReplacement", matcher),
  ("java/time/LocalDate", "LocalDateClassReplacement", localDate),
  ("java/time/LocalDateTime", "LocalDateTimeClassReplacement", localDateTime),
  ("java/lang/System", "SystemClassReplacement", system)]

def providers : Except Fault (List Provider) :=
  entries.mapM fun (target, className, specs) =>
    Provider.create target (runtimePackage ++ "/" ++ className) specs

def registry : Except Fault Registry := return Registry.ofProviders (← providers)

end CallProbe.StandardCatalog
