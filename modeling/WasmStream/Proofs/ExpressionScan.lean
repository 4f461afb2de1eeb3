import WasmStream.Proofs.Stability

/-! The scan of an expression, step by step. Each step reads one instruction, the opening of a block or
a marker, and leaves a scan of what is behind it; so what a scan has come to does not change when
more input arrives. -/
namespace WasmStream
open Reader

namespace Instruction

theorem scan_cons (limits : DecoderLimits) (opened : List OpenBlock) (body : List Instruction)
    (elseSeen : Bool) (used : Nat) {c : Cursor} {b : UInt8} {rest : List UInt8}
    (hc : c.rest = b :: rest) :
    scan limits opened body elseSeen used c =
      if b = endByte then
        match opened with
        | [] => .done body.reverse (used + 1)
        | inner :: outer =>
          scan limits outer (.block inner.kind inner.type body.reverse :: inner.before)
            inner.elseSeen (used + 1) (c.drop 1)
      else if b = elseByte then
        if takesElse opened && !elseSeen then
          scan limits opened (.elseMark :: body) true (used + 1) (c.drop 1)
        else .fail (.unexpectedElement "else" c.offset)
      else match BlockKind.ofByte? b with
        | some kind =>
          if opened.length < limits.maxBlockDepth.toNat then
            match BlockType.reader (c.drop 1) with
            | .done type n =>
              scan limits (⟨kind, type, body, elseSeen⟩ :: opened) [] false (used + (1 + n))
                (c.drop (1 + n))
            | .needMore => .needMore
            | .fail error => .fail error
          else .fail (.limitExceeded "block nesting" limits.maxBlockDepth.toNat c.offset)
        | none =>
          match Operator.reader b c.offset (c.drop 1) with
          | .done instruction n =>
            scan limits opened (instruction :: body) elseSeen (used + (1 + n)) (c.drop (1 + n))
          | .needMore => .needMore
          | .fail error => .fail error := by
  conv => lhs; rw [scan.eq_def]
  split
  · next hn => rw [hc] at hn; cases hn
  · next b' rest' hb =>
    rw [hc] at hb
    cases hb
    rfl

theorem scan_nil (limits : DecoderLimits) (opened : List OpenBlock) (body : List Instruction)
    (elseSeen : Bool) (used : Nat) {c : Cursor} (hc : c.rest = []) :
    scan limits opened body elseSeen used c = .needMore := by
  rw [scan.eq_def]
  split
  · rfl
  · next b rest hb =>
    rw [hc] at hb
    cases hb

/-- More input changes nothing in a scan that has ended; `used` counts on. -/
def ScanStable (limits : DecoderLimits) (opened : List OpenBlock) (body : List Instruction)
    (elseSeen : Bool) (used : Nat) (c : Cursor) : Prop :=
  match scan limits opened body elseSeen used c with
  | .done e n =>
    used ≤ n ∧ n ≤ used + c.rest.length ∧
      ∀ more, scan limits opened body elseSeen used (c.append more) = .done e n
  | .needMore => True
  | .fail error => ∀ more, scan limits opened body elseSeen used (c.append more) = .fail error

/-- A scan that goes on behind `k` bytes is stable if what follows is. -/
theorem scanStable_of_step {limits : DecoderLimits} {opened opened' : List OpenBlock}
    {body body' : List Instruction} {elseSeen elseSeen' : Bool} {used k : Nat} {c : Cursor}
    (hk : k ≤ c.rest.length)
    (hstep : ∀ more, scan limits opened body elseSeen used (c.append more) =
      scan limits opened' body' elseSeen' (used + k) ((c.drop k).append more))
    (h : ScanStable limits opened' body' elseSeen' (used + k) (c.drop k)) :
    ScanStable limits opened body elseSeen used c := by
  have hnow := hstep []
  rw [Cursor.append_nil, Cursor.append_nil] at hnow
  unfold ScanStable at h ⊢
  rw [hnow]
  cases hs : scan limits opened' body' elseSeen' (used + k) (c.drop k) with
  | done e n =>
    simp only [hs, Cursor.drop_rest, List.length_drop] at h
    refine ⟨by omega, by omega, fun more => ?_⟩
    rw [hstep more, h.2.2 more]
  | needMore => trivial
  | fail error =>
    simp only [hs] at h
    intro more
    rw [hstep more, h more]

theorem scanStable_of_needMore {limits : DecoderLimits} {opened : List OpenBlock}
    {body : List Instruction} {elseSeen : Bool} {used : Nat} {c : Cursor}
    (h : scan limits opened body elseSeen used c = .needMore) :
    ScanStable limits opened body elseSeen used c := by
  unfold ScanStable
  rw [h]
  trivial

theorem scanStable_of_fail {limits : DecoderLimits} {opened : List OpenBlock}
    {body : List Instruction} {elseSeen : Bool} {used : Nat} {c : Cursor} (error : Error)
    (h : ∀ more, scan limits opened body elseSeen used (c.append more) = .fail error) :
    ScanStable limits opened body elseSeen used c := by
  have hnow := h []
  rw [Cursor.append_nil] at hnow
  unfold ScanStable
  rw [hnow]
  exact h

theorem scanStable (limits : DecoderLimits) (opened : List OpenBlock) (body : List Instruction)
    (elseSeen : Bool) (used : Nat) (c : Cursor) :
    ScanStable limits opened body elseSeen used c := by
  fun_induction scan limits opened body elseSeen used c with
  | case1 opened body elseSeen used c hc =>
    exact scanStable_of_needMore (scan_nil _ _ _ _ _ hc)
  | case2 body elseSeen used c rest hc =>
    have hend (more) : scan limits [] body elseSeen used (c.append more) =
        .done body.reverse (used + 1) := by
      rw [scan_cons _ _ _ _ _ (Cursor.append_cons hc more)]
      simp
    unfold ScanStable
    have hnow := hend []
    rw [Cursor.append_nil] at hnow
    rw [hnow]
    exact ⟨by omega, by simp [hc], hend⟩
  | case3 body elseSeen used c rest inner outer hc ih =>
    have hk : 1 ≤ c.rest.length := by simp [hc]
    refine scanStable_of_step hk (fun more => ?_) (by simpa using ih)
    rw [scan_cons _ _ _ _ _ (Cursor.append_cons hc more), if_pos rfl,
      Cursor.drop_append hk]
  | case4 opened body elseSeen used c rest htakes hc hne ih =>
    have hk : 1 ≤ c.rest.length := by simp [hc]
    refine scanStable_of_step hk (fun more => ?_) ih
    rw [scan_cons _ _ _ _ _ (Cursor.append_cons hc more), if_neg hne, if_pos rfl,
      if_pos htakes, Cursor.drop_append hk]
  | case5 opened body elseSeen used c rest htakes hc hne =>
    refine scanStable_of_fail (.unexpectedElement "else" c.offset) fun more => ?_
    rw [scan_cons _ _ _ _ _ (Cursor.append_cons hc more), if_neg hne, if_pos rfl,
      if_neg htakes, Cursor.append_offset]
  | case6 opened body elseSeen used c b rest hc hend helse kind hkind hdepth type n htype ih =>
    have hk : 1 ≤ c.rest.length := by simp [hc]
    obtain ⟨hn, hmore⟩ := BlockType.stable_reader.done htype
    simp only [Cursor.drop_rest, List.length_drop] at hn
    have hkn : 1 + n ≤ c.rest.length := by omega
    refine scanStable_of_step hkn (fun more => ?_) ih
    rw [scan_cons _ _ _ _ _ (Cursor.append_cons hc more), if_neg hend, if_neg helse]
    simp only [hkind, if_pos hdepth, Cursor.drop_append hk, hmore more, Cursor.drop_append hkn]
  | case7 opened body elseSeen used c b rest hc hend helse kind hkind hdepth htype =>
    refine scanStable_of_needMore ?_
    rw [scan_cons _ _ _ _ _ hc, if_neg hend, if_neg helse]
    simp only [hkind, if_pos hdepth, htype]
  | case8 opened body elseSeen used c b rest hc hend helse kind hkind hdepth error htype =>
    have hk : 1 ≤ c.rest.length := by simp [hc]
    refine scanStable_of_fail error fun more => ?_
    rw [scan_cons _ _ _ _ _ (Cursor.append_cons hc more), if_neg hend, if_neg helse]
    simp only [hkind, if_pos hdepth, Cursor.drop_append hk, BlockType.stable_reader.fail htype more]
  | case9 opened body elseSeen used c b rest hc hend helse kind hkind hdepth =>
    refine scanStable_of_fail (.limitExceeded "block nesting" limits.maxBlockDepth.toNat c.offset)
      fun more => ?_
    rw [scan_cons _ _ _ _ _ (Cursor.append_cons hc more), if_neg hend, if_neg helse]
    simp only [hkind, if_neg hdepth, Cursor.append_offset]
  | case10 opened body elseSeen used c b rest hc hend helse hkind instruction n hop ih =>
    have hk : 1 ≤ c.rest.length := by simp [hc]
    obtain ⟨hn, hmore⟩ := (Operator.stable_reader b c.offset).done hop
    simp only [Cursor.drop_rest, List.length_drop] at hn
    have hkn : 1 + n ≤ c.rest.length := by omega
    refine scanStable_of_step hkn (fun more => ?_) ih
    rw [scan_cons _ _ _ _ _ (Cursor.append_cons hc more), if_neg hend, if_neg helse]
    simp only [hkind, Cursor.drop_append hk, Cursor.append_offset, hmore more,
      Cursor.drop_append hkn]
  | case11 opened body elseSeen used c b rest hc hend helse hkind hop =>
    refine scanStable_of_needMore ?_
    rw [scan_cons _ _ _ _ _ hc, if_neg hend, if_neg helse]
    simp only [hkind, hop]
  | case12 opened body elseSeen used c b rest hc hend helse hkind error hop =>
    have hk : 1 ≤ c.rest.length := by simp [hc]
    refine scanStable_of_fail error fun more => ?_
    rw [scan_cons _ _ _ _ _ (Cursor.append_cons hc more), if_neg hend, if_neg helse]
    simp only [hkind, Cursor.drop_append hk, Cursor.append_offset,
      (Operator.stable_reader b c.offset).fail hop more]

end Instruction

theorem Expression.stable_reader (limits : DecoderLimits) : Stable (reader limits) where
  done {c e n} h := by
    have hs := Instruction.scanStable limits [] [] false 0 c
    unfold Instruction.ScanStable at hs
    unfold reader at h ⊢
    rw [h] at hs
    exact ⟨by omega, hs.2.2⟩
  fail {c error} h := by
    have hs := Instruction.scanStable limits [] [] false 0 c
    unfold Instruction.ScanStable at hs
    unfold reader at h ⊢
    rw [h] at hs
    exact hs

end WasmStream
