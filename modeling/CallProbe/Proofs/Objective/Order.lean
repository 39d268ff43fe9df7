import CallProbe.Proofs.Objective.Identifier
import Mathlib.Data.String.Basic

/-!
# Identifiers sort by line

Numbers that are written with the same number of digits compare like their texts. Lines are padded
to one width, so behind the name of a class, which two identifiers have in common, the lines decide:
neither the number of a call, which is not padded, nor anything behind it is looked at.
-/

namespace CallProbe.Objective

/-! ## Digits of one length -/

variable {digits digits' : List Char}

private theorem ofDigitChars_cons_eq (c : Char) (rest : List Char) :
    Nat.ofDigitChars 10 (c :: rest) 0 =
      10 ^ rest.length * (c.toNat - '0'.toNat) + Nat.ofDigitChars 10 rest 0 := by
  rw [Nat.ofDigitChars_cons, Nat.ofDigitChars_eq_ofDigitChars_zero, Nat.mul_zero, Nat.zero_add]

theorem ofDigitChars_lt_pow (h : ∀ c ∈ digits, c.isDigit = true) :
    Nat.ofDigitChars 10 digits 0 < 10 ^ digits.length := by
  induction digits with
  | nil => simp
  | cons c rest ih =>
      obtain ⟨hc, hrest⟩ := List.forall_mem_cons.1 h
      have hdigit : c.toNat - '0'.toNat ≤ 9 :=
        Nat.sub_le_of_le_add (Char.isDigit_iff_toNat.1 hc).2
      have htail := ih hrest
      calc Nat.ofDigitChars 10 (c :: rest) 0
          = 10 ^ rest.length * (c.toNat - '0'.toNat) + Nat.ofDigitChars 10 rest 0 :=
            ofDigitChars_cons_eq c rest
        _ < 10 ^ rest.length * 9 + 10 ^ rest.length :=
            Nat.add_lt_add_of_le_of_lt (Nat.mul_le_mul_left _ hdigit) htail
        _ = 10 ^ (c :: rest).length := by rw [List.length_cons, Nat.pow_succ]; omega

/-- A digit weighs more than all digits behind it. -/
private theorem ofDigitChars_lt_of_head {c c' : Char} (h : ∀ d ∈ c :: digits, d.isDigit = true)
    (hlength : digits.length = digits'.length) (hlt : c < c') :
    Nat.ofDigitChars 10 (c :: digits) 0 < Nat.ofDigitChars 10 (c' :: digits') 0 := by
  obtain ⟨hc, hdigits⟩ := List.forall_mem_cons.1 h
  have hzero : '0'.toNat ≤ c.toNat := (Char.isDigit_iff_toNat.1 hc).1
  have hstep : c.toNat - '0'.toNat + 1 ≤ c'.toNat - '0'.toNat := by
    have hval : c.toNat < c'.toNat := UInt32.lt_iff_toNat_lt.1 (Char.lt_def.1 hlt)
    omega
  calc Nat.ofDigitChars 10 (c :: digits) 0
      = 10 ^ digits.length * (c.toNat - '0'.toNat) + Nat.ofDigitChars 10 digits 0 :=
        ofDigitChars_cons_eq c digits
    _ < 10 ^ digits.length * (c.toNat - '0'.toNat) + 10 ^ digits.length :=
        Nat.add_lt_add_left (ofDigitChars_lt_pow hdigits) _
    _ ≤ 10 ^ digits'.length * (c'.toNat - '0'.toNat) := by
        rw [← Nat.mul_succ, ← hlength]
        exact Nat.mul_le_mul_left _ hstep
    _ ≤ Nat.ofDigitChars 10 (c' :: digits') 0 := by
        rw [ofDigitChars_cons_eq]
        exact Nat.le_add_right _ _

theorem lt_of_ofDigitChars_lt (h : ∀ c ∈ digits, c.isDigit = true)
    (h' : ∀ c ∈ digits', c.isDigit = true) (hlength : digits.length = digits'.length)
    (hlt : Nat.ofDigitChars 10 digits 0 < Nat.ofDigitChars 10 digits' 0) : digits < digits' := by
  induction digits generalizing digits' with
  | nil =>
      obtain rfl := List.length_eq_zero_iff.1 hlength.symm
      exact absurd hlt (Nat.lt_irrefl _)
  | cons c rest ih =>
      obtain ⟨c', rest', rfl⟩ := List.exists_cons_of_length_eq_add_one hlength.symm
      have htails : rest.length = rest'.length := Nat.succ.inj hlength
      rcases lt_trichotomy c c' with hless | rfl | hgreater
      · exact .rel hless
      · refine .cons (ih (List.forall_mem_cons.1 h).2 (List.forall_mem_cons.1 h').2 htails ?_)
        rw [ofDigitChars_cons_eq, ofDigitChars_cons_eq, htails] at hlt
        exact Nat.lt_of_add_lt_add_left hlt
      · have hback := ofDigitChars_lt_of_head h' htails.symm hgreater
        exact absurd hlt (Nat.lt_asymm hback)

/-! ## Padded lines -/

variable {line line' : Nat}

theorem isDigit_of_mem_paddedLine {c : Char} (h : c ∈ (paddedLine line).toList) :
    c.isDigit = true := by
  rw [paddedLine, String.toList_ofList, List.leftpad, List.mem_append] at h
  rcases h with hpad | hdigit
  · rw [List.eq_of_mem_replicate hpad]
    rfl
  · exact Nat.isDigit_of_mem_toDigits (by decide) (by decide) hdigit

theorem length_paddedLine (hwidth : line < 10 ^ lineWidth) :
    (paddedLine line).toList.length = lineWidth := by
  rw [paddedLine, String.toList_ofList, List.length_leftpad]
  exact Nat.max_eq_left ((Nat.length_toDigits_le_iff (by decide) (by decide)).2 hwidth)

theorem paddedLine_lt (hlt : line < line') (hwidth : line' < 10 ^ lineWidth) :
    (paddedLine line).toList < (paddedLine line').toList := by
  apply lt_of_ofDigitChars_lt
  · exact fun c => isDigit_of_mem_paddedLine
  · exact fun c => isDigit_of_mem_paddedLine
  · rw [length_paddedLine (Nat.lt_trans hlt hwidth), length_paddedLine hwidth]
  · rwa [paddedLine_value, paddedLine_value]

/-! ## Identifiers -/

/-- Of texts of one length, the smaller one stays smaller whatever follows. -/
private theorem append_lt_append {front front' : List Char}
    (hlength : front.length = front'.length) (hlt : front < front') (back back' : List Char) :
    front ++ back < front' ++ back' := by
  induction hlt with
  | nil => cases hlength
  | rel hless => exact .rel hless
  | cons _ ih => exact .cons (ih (Nat.succ.inj hlength))

/-- Whatever follows them, the templates of a class compare by line. -/
private theorem template_append_lt (className : String) (hlt : line < line')
    (hwidth : line' < 10 ^ lineWidth) (index index' : Nat) (back back' : List Char) :
    (template className line index).toList ++ back <
      (template className line' index').toList ++ back' := by
  rw [toList_template, toList_template]
  simp only [List.append_assoc, List.cons_append]
  apply List.append_left_lt
  refine .cons (append_lt_append ?_ (paddedLine_lt hlt hwidth) _ _)
  rw [length_paddedLine (Nat.lt_trans hlt hwidth), length_paddedLine hwidth]

/-- The identifiers of a class are in the order of their lines, as long as lines have no more digits
than they are padded to; those of line events, with 16 bits, have not. -/
theorem identifiers_sort_by_line (className : String) (hlt : line < line')
    (hwidth : line' < 10 ^ lineWidth) (index index' : Nat) (outcome outcome' : Bool)
    (category category' : Category) :
    template className line index < template className line' index' ∧
      identifier (template className line index) outcome category <
        identifier (template className line' index') outcome' category' := by
  constructor
  · have htemplates := template_append_lt className hlt hwidth index index' [] []
    rwa [List.append_nil, List.append_nil] at htemplates
  · rw [String.lt_iff]
    simp only [identifier, String.append_assoc, String.toList_append (s := template _ _ _)]
    exact template_append_lt className hlt hwidth index index' _ _

/-- Behind line 9, line 10 comes, whatever the numbers are, and a line with five digits is last. -/
theorem ninthLine_first :
    (9 < 10 ∧ 10 < 10 ^ lineWidth) ∧ (10 < 65535 ∧ 65535 < 10 ^ lineWidth) ∧
      template "p/A" 9 10 < template "p/A" 10 9 ∧
      identifier (template "p/A" 10 9) true .boolean <
        identifier (template "p/A" 65535 0) false .boolean := by
  have hnine : 9 < 10 ∧ 10 < 10 ^ lineWidth := by decide
  have hlast : 10 < 65535 ∧ 65535 < 10 ^ lineWidth := by decide
  refine ⟨hnine, hlast, ?_, ?_⟩
  · exact (identifiers_sort_by_line "p/A" hnine.1 hnine.2 10 9 true true .boolean .boolean).1
  · exact (identifiers_sort_by_line "p/A" hlast.1 hlast.2 9 0 true false .boolean .boolean).2

end CallProbe.Objective
