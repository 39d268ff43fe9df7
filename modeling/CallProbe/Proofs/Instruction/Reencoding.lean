import CallProbe.Proofs.Instruction.RoundTrip
import CallProbe.Proofs.Pool.Recall

/-!
# Encoding a stream again

The size of an instruction depends on the pool index of its operand, so a layout depends on the
whole history of the pool. Still, a layout that succeeded has asked for all its operands, and a pool
that recalls the answers gives the same ones: encoding settles like the additions it is made of.
-/

namespace CallProbe

open Pool

variable {pool left : Pool} {stream : List Instruction} {encoded : EncodedCode}

/-! ## Edits that leave the pool alone -/

namespace Pool.Edit

variable {α σ : Type}

theorem Settles.of_untouched {edit : Edit α} {result : Except Fault α}
    (h : ∀ pool, edit pool = (result, pool)) : edit.Settles where
  recalls pool := by
    rw [h]
    exact Recalls.refl pool
  again := by
    intro pool left later a hok _
    rw [h, Prod.mk.injEq] at hok
    rw [h, hok.1]

theorem Settles.pure (a : α) : (Pure.pure a : Edit α).Settles := .of_untouched fun _ => rfl

theorem Settles.lift (result : Except Fault α) : (liftM result : Edit α).Settles :=
  .of_untouched fun _ => rfl

theorem Settles.throw (fault : Fault) : (MonadExcept.throw fault : Edit α).Settles :=
  .of_untouched fun _ => rfl

/-! ## Runs of edits -/

theorem Settles.foldlM {ι : Type} {step : σ → ι → Edit σ}
    (h : ∀ state item, (step state item).Settles) (items : List ι) (state : σ) :
    (items.foldlM step state).Settles := by
  induction items generalizing state with
  | nil => exact .pure state
  | cons item rest ih =>
      rw [List.foldlM_cons]
      exact (h state item).bind ih

end Pool.Edit

open Pool.Edit

/-- Lowering is what asks the pool, and it only ever adds symbols. -/
theorem Instruction.lower_settles (instruction : Instruction) : instruction.lower.Settles := by
  cases instruction with
  | loadString text => exact (Addition.string text).edit_settles
  | invoke call =>
      simp only [lower]
      cases call.poolIndex with
      | some index => exact .pure index
      | none => exact (Addition.methodRef call.member).edit_settles
  | _ => exact .pure 0

theorem Layout.place_settles (layout : Layout) (instruction : Instruction) :
    (layout.place instruction).Settles := by
  refine instruction.lower_settles.bind fun index => ?_
  refine (Settles.lift (layout.labelsWith instruction)).bind fun labels => ?_
  dsimp only
  split
  · exact (Settles.throw _).bind fun _ => .pure _
  · exact .pure _

theorem encodeStream_settles (stream : List Instruction) : (encodeStream stream).Settles :=
  (Settles.foldlM Layout.place_settles stream {}).bind fun layout =>
    (Settles.lift layout.emit).bind fun _ => .pure _

/-- A stream that was encoded is encoded in the same way by the pool that was left, then and after
any further additions, and nothing is added for it any more. -/
theorem encodeStream_stable (h : encodeStream stream pool = (.ok encoded, left))
    (history : List Addition) :
    encodeStream stream left = (.ok encoded, left) ∧
      encodeStream stream (left.grown history) = (.ok encoded, left.grown history) :=
  ⟨(encodeStream_settles stream).again h (Recalls.refl left),
    (encodeStream_settles stream).again h (grown_recalls left history)⟩

/-- The text of the loop may become the name of a class, and other constants may follow it. -/
theorem textLoop_settled :
    encodeStream textLoop Pool.new = (.ok encodedLoop, poolOfText) ∧
      encodeStream textLoop poolOfText = (.ok encodedLoop, poolOfText) ∧
      encodeStream textLoop
          (poolOfText.grown [.className "again", .constant (.long 7), .string "other"]) =
        (.ok encodedLoop,
          poolOfText.grown [.className "again", .constant (.long 7), .string "other"]) :=
  ⟨encodeStream_textLoop, encodeStream_stable encodeStream_textLoop _⟩

end CallProbe
