import WasmStream.Decoder.Step

/-! Decoding as far as the bytes allow. A transition either uses bytes or moves on inside the section,
so the loop ends whatever the bytes are. -/
namespace WasmStream

namespace DecoderState

/-- How far the state is from the end of its section, apart from the bytes that are left. -/
def weight : DecoderState → Nat × Nat
  | sectionStart => (0, 0)
  | sectionEnd _ => (1, 0)
  | entries _ remaining _ => (2, remaining)
  | header | entryCount _ | startFunction _ | dataCount _ | custom _ _ | skip _ => (3, 0)

end DecoderState

namespace Decoder

/-- The order of weights. -/
def Lighter : Nat × Nat → Nat × Nat → Prop := Prod.Lex (· < ·) (· < ·)

theorem rest_ne_nil_of_bytes {c : Cursor} {n k : Nat} {found : List UInt8} (hn : 0 < n)
    (h : Reader.bytes n c = .done found k) : 0 < k ∧ c.rest ≠ [] := by
  unfold Reader.bytes at h
  simp only at h
  split at h
  · next hl =>
    cases h
    refine ⟨hn, ?_⟩
    intro hc
    simp [hc] at hl
    omega
  · cases h

theorem rest_ne_nil_of_head {c : Cursor} {k : Nat} {head : UInt8 × UInt32}
    (h : SectionFrame.headReader c = .done head k) : 0 < k ∧ c.rest ≠ [] := by
  unfold SectionFrame.headReader at h
  rw [Reader.bind_run] at h
  cases hc : c.rest with
  | nil => simp [Reader.byte, hc] at h
  | cons b rest =>
    simp only [Reader.byte, hc] at h
    generalize hr : (Reader.u32 >>= fun size => pure (b, size)) (c.drop 1) = r at h
    cases r with
    | done value used =>
      simp only [Outcome.after] at h
      cases h
      exact ⟨by omega, by simp⟩
    | needMore => cases h
    | fail error => cases h

/-- A transition uses bytes, or it makes the state lighter. -/
theorem step_ready {d d' : Decoder} {c : Cursor} {n : Nat} (h : d.step c = .ready () d' n) :
    (0 < n ∧ c.rest ≠ []) ∨ Lighter d'.state.weight d.state.weight := by
  unfold step at h
  split at h
  · unfold stepHeader at h
    split at h
    · next found k hb =>
      split at h
      · cases h
        exact .inl (rest_ne_nil_of_bytes (by decide) hb)
      · cases h
    · cases h
    · cases h
  · unfold stepSectionStart at h
    split at h
    · next id size k hb =>
      split at h
      · cases h
        exact .inl (rest_ne_nil_of_head hb)
      · cases h
    · cases h
    · cases h
  · next s hs =>
    unfold stepEntryCount at h
    rw [hs]
    right
    split at h
    · split at h
      · cases h
      · split at h
        · split at h <;> cases h <;> exact Prod.Lex.left _ _ (by decide)
        · cases h
          exact Prod.Lex.left _ _ (by decide)
    · cases h
    · cases h
  · next s remaining entry hs =>
    unfold stepEntries at h
    rw [hs]
    right
    split at h
    · dsimp only at h
      split at h
      · cases h
      · split at h
        · cases h
          exact Prod.Lex.left _ _ (by decide)
        · cases h
          exact Prod.Lex.right _ (by omega)
    · dsimp only at h
      split at h <;> cases h
    · cases h
  · next s hs =>
    unfold stepNumber at h
    rw [hs]
    right
    split at h <;> cases h
    exact Prod.Lex.left _ _ (by decide)
  · next s hs =>
    unfold stepNumber at h
    rw [hs]
    right
    split at h <;> cases h
    exact Prod.Lex.left _ _ (by decide)
  · next s entry hs =>
    unfold stepCustom at h
    rw [hs]
    right
    split at h <;> cases h
    exact Prod.Lex.left _ _ (by decide)
  · next s hs =>
    unfold stepSkip at h
    rw [hs]
    dsimp only at h
    split at h
    · split at h
      · cases h
      · next hn =>
        cases h
        refine .inl ⟨by omega, ?_⟩
        intro hc
        simp [hc] at hn
    · cases h
      exact .inr (Prod.Lex.left _ _ (by decide))
  · next s hs =>
    unfold stepSectionEnd at h
    rw [hs]
    right
    split at h <;> cases h
    exact Prod.Lex.left _ _ (by decide)

/-- The bytes that are left come first, then the weight of the state. -/
def measure (d : Decoder) (c : Cursor) : Nat × Nat × Nat := (c.rest.length, d.state.weight)

theorem measure_lt {d d' : Decoder} {c : Cursor} {n : Nat} (h : d.step c = .ready () d' n) :
    Prod.Lex (· < ·) Lighter (measure d' (c.drop n)) (measure d c) := by
  by_cases hl : (c.drop n).rest.length = c.rest.length
  · rcases step_ready h with ⟨hn, hc⟩ | hw
    · have := List.length_pos_iff.2 hc
      simp at hl
      omega
    · unfold measure
      rw [hl]
      exact Prod.Lex.right _ hw
  · refine Prod.Lex.left _ _ ?_
    simp at hl ⊢
    omega

/-- Transitions until one is paused or fails. `used` counts the bytes used before. -/
def run (d : Decoder) (used : Nat) (c : Cursor) : Except Error Unit × Decoder × Nat :=
  match _h : d.step c with
  | .ready () d' n => run d' (used + n) (c.drop n)
  | .paused d' n => (.ok (), d', used + n)
  | .failed error d' n => (.error error, d', used + n)
termination_by measure d c
decreasing_by exact measure_lt (by assumption)

end Decoder

/-- Where decoding stopped: inside something, or where the module may end. -/
inductive Status where
  | needMoreInput
  | sectionBoundary
  deriving DecidableEq, Repr

namespace Status

def name : Status → String
  | needMoreInput => "NeedMoreInput"
  | sectionBoundary => "SectionBoundary"

end Status

namespace Decoder
variable {σ : Type} [Source σ]

/-- Decode as far as the bytes of the source allow. -/
def advance (d : Decoder) (s : σ) : Except Error Status × Decoder × σ :=
  let (result, d, used) := d.run 0 (Source.ahead s)
  let s := Source.consume s used
  match result with
  | .error error => (.error error, d, s)
  | .ok () =>
    if d.isAtBoundary && (Source.peek s).isEmpty then (.ok .sectionBoundary, d, s)
    else (.ok .needMoreInput, d, s)

/-- The module, once the source is exhausted. -/
def finish (d : Decoder) (s : σ) : Except Error Module :=
  if d.isAtBoundary && (Source.peek s).isEmpty then .ok d.module
  else .error (.truncatedModule d.state.place (Source.offset s))

end Decoder
end WasmStream
