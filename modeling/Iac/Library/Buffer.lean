import Mathlib.Data.List.TakeWhile
import Iac.Library.Text

/-! Character arrays written piecewise by `sprintf`. What a later reader sees of
such an array is its text up to the first NUL. -/

namespace CText

def cstring (buffer : Bytes) : Bytes := buffer.takeWhile (· ≠ 0)

/-- `buffer` holds a NUL, so that reading it as a string stays inside. -/
def Terminated (buffer : Bytes) : Prop := (0 : UInt8) ∈ buffer

instance (buffer : Bytes) : Decidable (Terminated buffer) :=
  inferInstanceAs (Decidable (_ ∈ _))

/-- `sprintf(buffer + index, text)`, or nothing when the text and its NUL do not
fit in the array. -/
def sprintfAt (buffer : Bytes) (index : Nat) (text : Bytes) : Option Bytes :=
  if index + text.length < buffer.length then
    some (buffer.take index ++ text ++ 0 :: buffer.drop (index + text.length + 1))
  else none

/-- The string that results from writing `text` at `index` over the string `old`:
a write beyond the NUL stays invisible. -/
def overwrite (old : Bytes) (index : Nat) (text : Bytes) : Bytes :=
  if index ≤ old.length then old.take index ++ text else old

theorem cstring_no_nul (buffer : Bytes) : (0 : UInt8) ∉ cstring buffer := by
  intro member
  have kept := List.mem_takeWhile_imp member
  simp at kept

theorem cstring_length_le (buffer : Bytes) : (cstring buffer).length ≤ buffer.length :=
  (List.takeWhile_prefix _).length_le

theorem terminated_split {buffer : Bytes} (terminated : Terminated buffer) :
    ∃ rest, buffer = cstring buffer ++ 0 :: rest := by
  induction buffer with
  | nil => simp [Terminated] at terminated
  | cons byte rest ih =>
      by_cases nul : byte = 0
      · exact ⟨rest, by simp [cstring, nul]⟩
      · have later : Terminated rest := by
          simpa [Terminated, Ne.symm nul] using terminated
        obtain ⟨tail, equal⟩ := ih later
        refine ⟨tail, ?_⟩
        simpa [cstring, nul] using equal

theorem cstring_append_nul {text : Bytes} (clean : (0 : UInt8) ∉ text) (rest : Bytes) :
    cstring (text ++ 0 :: rest) = text := by
  induction text with
  | nil => simp [cstring]
  | cons byte text ih =>
      simp only [List.mem_cons, not_or] at clean
      have nonzero : byte ≠ 0 := Ne.symm clean.1
      simpa [cstring, nonzero] using ih clean.2

theorem cstring_eq_self {text : Bytes} (clean : (0 : UInt8) ∉ text) : cstring text = text := by
  rw [cstring, List.takeWhile_eq_self_iff]
  intro byte member
  have nonzero : byte ≠ 0 := fun equal => clean (equal ▸ member)
  simp [nonzero]

theorem sprintfAt_isSome {buffer : Bytes} {index : Nat} {text : Bytes} :
    (sprintfAt buffer index text).isSome ↔ index + text.length < buffer.length := by
  unfold sprintfAt
  split <;> simp_all

theorem sprintfAt_length {buffer written : Bytes} {index : Nat} {text : Bytes}
    (done : sprintfAt buffer index text = some written) : written.length = buffer.length := by
  unfold sprintfAt at done
  split at done
  · rename_i fits
    simp only [Option.some.injEq] at done
    subst written
    simp only [List.length_append, List.length_take, List.length_cons, List.length_drop]
    omega
  · simp at done

theorem sprintfAt_terminated {buffer written : Bytes} {index : Nat} {text : Bytes}
    (done : sprintfAt buffer index text = some written) : Terminated written := by
  unfold sprintfAt at done
  split at done
  · simp only [Option.some.injEq] at done
    subst written
    simp [Terminated]
  · simp at done

/-- The visible effect of one `sprintf` into the middle of an array. -/
theorem sprintfAt_cstring {buffer written : Bytes} {index : Nat} {text : Bytes}
    (terminated : Terminated buffer) (clean : (0 : UInt8) ∉ text)
    (done : sprintfAt buffer index text = some written) :
    cstring written = overwrite (cstring buffer) index text := by
  obtain ⟨rest, split⟩ := terminated_split terminated
  have noNul := cstring_no_nul buffer
  generalize cstring buffer = old at split noNul
  subst split
  unfold sprintfAt at done
  split at done
  · simp only [Option.some.injEq] at done
    subst written
    by_cases inside : index ≤ old.length
    · rw [overwrite, if_pos inside, List.take_append_of_le_length inside]
      apply cstring_append_nul
      simp only [List.mem_append, not_or]
      exact ⟨fun member => noNul (List.mem_of_mem_take member), clean⟩
    · rw [overwrite, if_neg inside, List.take_append, List.take_of_length_le (by omega)]
      obtain ⟨gap, positive⟩ : ∃ gap, index - old.length = gap + 1 := ⟨index - old.length - 1, by omega⟩
      rw [positive, List.take_succ_cons]
      simpa [List.append_assoc] using cstring_append_nul noNul _
  · simp at done

/-- The first `sprintf` into an array does not depend on what was there. -/
theorem sprintfAt_zero_cstring {buffer written : Bytes} {text : Bytes}
    (clean : (0 : UInt8) ∉ text) (done : sprintfAt buffer 0 text = some written) :
    cstring written = text := by
  unfold sprintfAt at done
  split at done
  · simp only [Option.some.injEq] at done
    subst written
    simpa using cstring_append_nul clean _
  · simp at done

/-- A text that fills its array leaves nothing of what was there. -/
theorem sprintfAt_full {buffer text : Bytes} (size : buffer.length = text.length + 1) :
    sprintfAt buffer 0 text = some (text ++ [0]) := by
  have room : 0 + text.length < buffer.length := by omega
  have behind : buffer.drop (0 + text.length + 1) = [] := List.drop_eq_nil_of_le (by omega)
  rw [sprintfAt, if_pos room, behind, List.take_zero, List.nil_append]

@[simp] theorem overwrite_length (old text : Bytes) :
    overwrite old old.length text = old ++ text := by
  simp [overwrite]

theorem overwrite_append {old text : Bytes} {index count : Nat} (next : Bytes)
    (start : index = old.length + count) :
    overwrite (old ++ text) index next = old ++ overwrite text count next := by
  subst start
  by_cases inside : count ≤ text.length
  · simp [overwrite, inside, List.take_append, List.take_of_length_le]
  · simp [overwrite, inside]

theorem overwrite_beyond {old : Bytes} {index : Nat} (beyond : old.length < index) (text : Bytes) :
    overwrite old index text = old := by
  simp [overwrite, Nat.not_le.mpr beyond]

theorem overwrite_within {old : Bytes} {index : Nat} (within : index ≤ old.length) (text : Bytes) :
    overwrite old index text = old.take index ++ text := by
  simp [overwrite, within]

/-! A text of four parts, written at positions that are computed and not measured. -/

/-- The visible result: the width counted for the first part may miss its length, and the
last part is cut at the width counted for it. -/
def assemble (base first : Bytes) (firstWidth : Nat) (second last : Bytes) (lastWidth : Nat) :
    Bytes :=
  base ++ if first.length < firstWidth then first
    else first.take firstWidth ++ second ++ last.take lastWidth

theorem assemble_cstring {buffer q₁ q₂ q₃ q₄ q₅ base first second last : Bytes}
    {firstWidth lastWidth : Nat} (cleanBase : (0 : UInt8) ∉ base) (cleanFirst : (0 : UInt8) ∉ first)
    (cleanSecond : (0 : UInt8) ∉ second) (cleanLast : (0 : UInt8) ∉ last)
    (write₁ : sprintfAt buffer 0 base = some q₁)
    (write₂ : sprintfAt q₁ base.length first = some q₂)
    (write₃ : sprintfAt q₂ (base.length + firstWidth) second = some q₃)
    (write₄ : sprintfAt q₃ (base.length + firstWidth + second.length) last = some q₄)
    (write₅ : sprintfAt q₄ (base.length + firstWidth + second.length + lastWidth) [] = some q₅) :
    cstring q₅ = assemble base first firstWidth second last lastWidth := by
  have text₁ : cstring q₁ = base := sprintfAt_zero_cstring cleanBase write₁
  have text₂ : cstring q₂ = base ++ first := by
    rw [sprintfAt_cstring (sprintfAt_terminated write₁) cleanFirst write₂, text₁, overwrite_length]
  have text₃ : cstring q₃ = base ++ overwrite first firstWidth second := by
    rw [sprintfAt_cstring (sprintfAt_terminated write₂) cleanSecond write₃, text₂,
      overwrite_append second rfl]
  have text₄ : cstring q₄ =
      base ++ overwrite (overwrite first firstWidth second) (firstWidth + second.length) last := by
    rw [sprintfAt_cstring (sprintfAt_terminated write₃) cleanLast write₄, text₃,
      overwrite_append last (Nat.add_assoc _ _ _)]
  rw [sprintfAt_cstring (sprintfAt_terminated write₄) (by simp) write₅, text₄, assemble,
    overwrite_append [] (by omega : _ = base.length + (firstWidth + second.length + lastWidth))]
  by_cases short : first.length < firstWidth
  · have behind₄ : first.length < firstWidth + second.length := by omega
    have behind₅ : first.length < firstWidth + second.length + lastWidth := by omega
    rw [if_pos short, overwrite_beyond short, overwrite_beyond behind₄, overwrite_beyond behind₅]
  · have exact₃ : overwrite first firstWidth second = first.take firstWidth ++ second :=
      overwrite_within (by omega) second
    have length₃ : (first.take firstWidth ++ second).length = firstWidth + second.length := by
      rw [List.length_append, List.length_take]
      omega
    rw [if_neg short, exact₃, ← length₃, overwrite_length, overwrite_append [] rfl]
    congr 2
    by_cases cut : lastWidth ≤ last.length
    · rw [overwrite_within cut, List.append_nil]
    · rw [overwrite_beyond (by omega), List.take_of_length_le (by omega)]

end CText
