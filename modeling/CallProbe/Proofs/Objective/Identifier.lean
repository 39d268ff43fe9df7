import CallProbe.Objective.Identifier
import Mathlib.Data.List.Basic

/-!
# Identifiers tell calls apart

A template is determined by the dotted name of its class, its line and its number, and an
identifier by its template, its category and its outcome. Names may hold underscores and digits
of their own, but digits hold no underscore: read from the right, a template falls apart at its
last two underscores.
-/

namespace CallProbe.Objective

theorem paddedLine_value (line : Nat) :
    Nat.ofDigitChars 10 (paddedLine line).toList 0 = line := by
  rw [paddedLine, String.toList_ofList, List.leftpad, Nat.ofDigitChars_append,
    Nat.ofDigitChars_replicate_zero, Nat.mul_zero, Nat.ofDigitChars_ten_toDigits]

private theorem digits_value (n : Nat) : Nat.ofDigitChars 10 (digits n).toList 0 = n := by
  rw [digits, String.toList_ofList, Nat.ofDigitChars_ten_toDigits]

private theorem underscore_not_mem_digits (n : Nat) : '_' ∉ (digits n).toList := by
  rw [digits, String.toList_ofList]
  exact Nat.underscore_not_in_toDigits

private theorem underscore_not_mem_paddedLine (line : Nat) : '_' ∉ (paddedLine line).toList := by
  rw [paddedLine, String.toList_ofList, List.leftpad, List.mem_append, not_or]
  exact ⟨fun h => absurd (List.eq_of_mem_replicate h) (by decide), Nat.underscore_not_in_toDigits⟩

/-- The last underscore of a text is found again. -/
private theorem append_underscore_inj {front front' back back' : List Char} (h : '_' ∉ back)
    (h' : '_' ∉ back') (heq : front ++ '_' :: back = front' ++ '_' :: back') :
    front = front' ∧ back = back' := by
  rcases List.append_eq_append_iff.1 heq with ⟨between, hfront, hback⟩ | ⟨between, hfront, hback⟩
  · cases between with
    | nil => exact ⟨by simp [hfront], by simpa using hback⟩
    | cons first between =>
        obtain ⟨-, hback⟩ := List.cons.inj hback
        exact absurd (by simp [hback]) h
  · cases between with
    | nil => exact ⟨by simp [hfront], by simpa using hback.symm⟩
    | cons first between =>
        obtain ⟨-, hback⟩ := List.cons.inj hback
        exact absurd (by simp [hback]) h'

theorem toList_template (className : String) (line index : Nat) :
    (template className line index).toList =
      ((kindName ++ "_at_" ++ dottedName className).toList ++ '_' :: (paddedLine line).toList) ++
        '_' :: (digits index).toList := by
  have hunderscore : "_".toList = ['_'] := rfl
  simp only [template, String.toList_append, hunderscore, List.append_assoc, List.cons_append,
    List.nil_append]

theorem template_eq_iff {className className' : String} {line line' index index' : Nat} :
    template className line index = template className' line' index' ↔
      dottedName className = dottedName className' ∧ line = line' ∧ index = index' := by
  constructor
  · intro h
    have hlist := congrArg String.toList h
    rw [toList_template, toList_template] at hlist
    obtain ⟨hfront, hindex⟩ := append_underscore_inj (underscore_not_mem_digits _)
      (underscore_not_mem_digits _) hlist
    obtain ⟨hname, hline⟩ := append_underscore_inj (underscore_not_mem_paddedLine _)
      (underscore_not_mem_paddedLine _) hfront
    refine ⟨?_, ?_, ?_⟩
    · rw [String.toList_append, String.toList_append (t := dottedName className')] at hname
      exact String.toList_inj.1 (List.append_cancel_left hname)
    · rw [← paddedLine_value line, hline, paddedLine_value]
    · rw [← digits_value index, hindex, digits_value]
  · rintro ⟨hname, rfl, rfl⟩
    rw [template, hname]
    rfl

/-- A name without dots is found again from its dotted form. -/
theorem dottedName_inj {name name' : String} (h : '.' ∉ name.toList) (h' : '.' ∉ name'.toList) :
    dottedName name = dottedName name' ↔ name = name' := by
  have hback {name : String} (h : '.' ∉ name.toList) :
      (dottedName name).toList.map (fun c => if c = '.' then '/' else c) = name.toList := by
    rw [dottedName, String.toList_map, List.map_map]
    conv => rhs; rw [← List.map_id name.toList]
    apply List.map_congr_left
    intro c hc
    have hdot : c ≠ '.' := fun heq => h (heq ▸ hc)
    by_cases hslash : c = '/' <;> simp [hslash, hdot]
  constructor
  · intro heq
    rw [← String.toList_inj, ← hback h, heq, hback h']
  · rintro rfl
    rfl

/-! ## Outcomes -/

/-- What an identifier adds to its template. -/
private def ending (outcome : Bool) (category : Category) : List Char :=
  ("_" ++ category.name ++ "_" ++ outcomeName outcome).toList

private theorem ending_suffix (outcome outcome' : Bool) (category category' : Category)
    (h : ending outcome category <:+ ending outcome' category') :
    outcome = outcome' ∧ category = category' := by
  revert h
  cases outcome <;> cases outcome' <;> cases category <;> cases category' <;> decide

theorem identifier_eq_iff {template template' : String} {outcome outcome' : Bool}
    {category category' : Category} :
    identifier template outcome category = identifier template' outcome' category' ↔
      template = template' ∧ outcome = outcome' ∧ category = category' := by
  constructor
  · intro h
    have hlist : template.toList ++ ending outcome category =
        template'.toList ++ ending outcome' category' := by
      have hlist := congrArg String.toList h
      simpa only [identifier, ending, String.toList_append, List.append_assoc] using hlist
    have hsame : outcome = outcome' ∧ category = category' := by
      rcases Nat.le_total (ending outcome category).length (ending outcome' category').length
        with hle | hle
      · apply ending_suffix
        exact List.suffix_of_suffix_length_le ⟨_, hlist⟩ ⟨_, rfl⟩ hle
      · obtain ⟨hright, hleft⟩ := ending_suffix outcome' outcome category' category
          (List.suffix_of_suffix_length_le ⟨_, hlist.symm⟩ ⟨_, rfl⟩ hle)
        exact ⟨hright.symm, hleft.symm⟩
    rcases hsame with ⟨rfl, rfl⟩
    exact ⟨String.toList_inj.1 (List.append_cancel_right hlist), rfl, rfl⟩
  · rintro ⟨rfl, rfl, rfl⟩
    rfl

/-- Calls with different templates own different identifiers, whatever their categories are. -/
theorem identifiers_disjoint {template template' : String} (h : template ≠ template')
    (category category' : Category) :
    List.Disjoint (identifiers template category) (identifiers template' category') := by
  intro id hid hid'
  have hform {template : String} {category : Category} (hmem : id ∈ identifiers template category) :
      ∃ outcome, id = identifier template outcome category := by
    rcases List.mem_cons.1 hmem with rfl | hmem
    · exact ⟨true, rfl⟩
    · exact ⟨false, List.mem_singleton.1 hmem⟩
  obtain ⟨outcome, rfl⟩ := hform hid
  obtain ⟨outcome', heq⟩ := hform hid'
  exact h (identifier_eq_iff.1 heq).1

/-- Identifiers are the same exactly for the same outcome of the same call of the same class, a
class being known by its dotted name only. Names without dots are told apart. -/
theorem identifiers_collision_free (className className' : String)
    (line line' index index' : Nat) (outcome outcome' : Bool) (category category' : Category) :
    (identifier (template className line index) outcome category =
        identifier (template className' line' index') outcome' category' ↔
      line = line' ∧ index = index' ∧ outcome = outcome' ∧ category = category' ∧
        dottedName className = dottedName className') ∧
    (template className line index = template className' line' index' ↔
      line = line' ∧ index = index' ∧ dottedName className = dottedName className') ∧
    ('.' ∉ className.toList → '.' ∉ className'.toList →
      (identifier (template className line index) outcome category =
          identifier (template className' line' index') outcome' category' →
        (className, line, index, outcome, category) =
          (className', line', index', outcome', category')) ∧
      (template className line index = template className' line' index' →
        (className, line, index) = (className', line', index'))) := by
  have hidentifier : identifier (template className line index) outcome category =
        identifier (template className' line' index') outcome' category' ↔
      line = line' ∧ index = index' ∧ outcome = outcome' ∧ category = category' ∧
        dottedName className = dottedName className' := by
    rw [identifier_eq_iff, template_eq_iff]
    constructor
    · rintro ⟨⟨hname, hline, hindex⟩, houtcome, hcategory⟩
      exact ⟨hline, hindex, houtcome, hcategory, hname⟩
    · rintro ⟨hline, hindex, houtcome, hcategory, hname⟩
      exact ⟨⟨hname, hline, hindex⟩, houtcome, hcategory⟩
  have htemplate : template className line index = template className' line' index' ↔
      line = line' ∧ index = index' ∧ dottedName className = dottedName className' := by
    rw [template_eq_iff, and_comm, and_assoc]
  refine ⟨hidentifier, htemplate, ?_⟩
  intro hdots hdots'
  constructor
  · intro heq
    rcases hidentifier.1 heq with ⟨rfl, rfl, rfl, rfl, hname⟩
    rw [(dottedName_inj hdots hdots').1 hname]
  · intro heq
    rcases htemplate.1 heq with ⟨rfl, rfl, hname⟩
    rw [(dottedName_inj hdots hdots').1 hname]

/-- A name may end like a line and a number. -/
theorem numberedName_not_call :
    '.' ∉ "p/A_00007_1".toList ∧ '.' ∉ "p/A".toList ∧
      template "p/A_00007_1" 3 0 ≠ template "p/A" 7 1 ∧
      identifier (template "p/A_00007_1" 3 0) true .boolean ≠
        identifier (template "p/A" 7 1) true .boolean := by
  have hdots : '.' ∉ "p/A_00007_1".toList := by decide
  have hdots' : '.' ∉ "p/A".toList := by decide
  rcases (identifiers_collision_free "p/A_00007_1" "p/A" 3 7 0 1 true true .boolean .boolean).2.2
    hdots hdots' with ⟨hidentifier, htemplate⟩
  exact ⟨hdots, hdots', mt htemplate (by decide), mt hidentifier (by decide)⟩

end CallProbe.Objective
