import WasmStream.Proofs.ExpressionScan
import WasmStream.Proofs.Grammar.Instruction

/-! The written form of an expression. The reader keeps the open blocks in a list; what it has read at
any time is a form of the sequences in that list, one inside the other, and so at the end it is a form
of the whole expression. -/
namespace WasmStream
open Reader Grammar Leb128

namespace Instruction

mutual

/-- `P` holds of the instruction and of all instructions inside it. -/
def Everywhere (P : Instruction → Prop) : Instruction → Prop
  | block kind type body => P (.block kind type body) ∧ EverywhereAll P body
  | i => P i

def EverywhereAll (P : Instruction → Prop) : List Instruction → Prop
  | [] => True
  | i :: rest => i.Everywhere P ∧ EverywhereAll P rest

end

theorem everywhereAll_append {P : Instruction → Prop} {l l' : List Instruction} :
    EverywhereAll P (l ++ l') ↔ EverywhereAll P l ∧ EverywhereAll P l' := by
  induction l with
  | nil => simp [EverywhereAll]
  | cons i rest ih => simp [EverywhereAll, ih, and_assoc]

theorem depthAll_append (l l' : List Instruction) :
    depthAll (l ++ l') = max (depthAll l) (depthAll l') := by
  induction l with
  | nil => simp [depthAll]
  | cons i rest ih => simp [depthAll, ih, Nat.max_assoc]

/-- An instruction that is no block has nothing inside it, and it is no marker. -/
theorem simple_of_immediates {op : Operator} {i : Instruction} {w : List UInt8}
    (h : op.Immediates i w) :
    (∀ P, i.Everywhere P ↔ P i) ∧ i.depth = 0 ∧ i.isElse = false := by
  cases h <;> exact ⟨fun P => by simp only [Everywhere], by simp only [depth], rfl⟩

end Instruction

namespace Expression

/-- The forms of the instructions in order, and an `end`. -/
def Encoding : Grammar Expression := fun e w =>
  ∃ u, Many Instruction.Form e u ∧ w = u ++ [Instruction.endByte]

/-- Every instruction may stand where it stands; in particular there is no `else` outside of all
blocks. -/
def WellFormed (e : Expression) : Prop :=
  e.countP Instruction.isElse = 0 ∧ Instruction.EverywhereAll Instruction.Proper e

/-- The form of a well-formed expression that is nested within the limits. -/
def Form (limits : DecoderLimits) : Grammar Expression := fun e w =>
  e.Encoding w ∧ e.WellFormed ∧ Instruction.depthAll e ≤ limits.maxBlockDepth.toNat

end Expression

namespace Instruction
variable {limits : DecoderLimits} {opened outer : List OpenBlock} {body l : List Instruction}
  {elseSeen : Bool} {i : Instruction} {u v w p : List UInt8}

/-- What has been read of one sequence. -/
structure SequenceSoFar (limits : DecoderLimits) (opened : List OpenBlock) (body : List Instruction)
    (elseSeen : Bool) (u : List UInt8) : Prop where
  form : Many Form body.reverse u
  proper : EverywhereAll Proper body.reverse
  marks : body.countP isElse = if elseSeen then 1 else 0
  takes : elseSeen = true → takesElse opened = true
  depth : opened.length + depthAll body.reverse ≤ limits.maxBlockDepth.toNat

/-- What has been read of all the sequences that are open, outermost first: `p` is a form of it. -/
def ReadSoFar (limits : DecoderLimits) :
    List OpenBlock → List Instruction → Bool → List UInt8 → Prop
  | [], body, elseSeen, p => SequenceSoFar limits [] body elseSeen p
  | b :: outer, body, elseSeen, p => ∃ q t u, ReadSoFar limits outer b.before b.elseSeen q ∧
      b.type.Form t ∧ SequenceSoFar limits (b :: outer) body elseSeen u ∧
      p = q ++ b.kind.toByte :: (t ++ u)

theorem sequenceSoFar_nil (h : opened.length ≤ limits.maxBlockDepth.toNat) :
    SequenceSoFar limits opened [] false [] where
  form := .nil
  proper := trivial
  marks := rfl
  takes hseen := by cases hseen
  depth := h

theorem SequenceSoFar.push (h : SequenceSoFar limits opened body elseSeen u) (hform : Form i w)
    (hproper : i.Everywhere Proper) (helse : i.isElse = false)
    (hdepth : opened.length + i.depth ≤ limits.maxBlockDepth.toNat) :
    SequenceSoFar limits opened (i :: body) elseSeen (u ++ w) where
  form := by
    rw [List.reverse_cons]
    exact h.form.append (by simpa using Many.cons hform .nil)
  proper := by
    rw [List.reverse_cons, everywhereAll_append]
    exact ⟨h.proper, hproper, trivial⟩
  marks := by simp [helse, h.marks]
  takes := h.takes
  depth := by
    have := h.depth
    rw [List.reverse_cons, depthAll_append]
    simp only [depthAll]
    omega

theorem SequenceSoFar.mark (h : SequenceSoFar limits opened body elseSeen u)
    (htakes : (takesElse opened && !elseSeen) = true) :
    SequenceSoFar limits opened (.elseMark :: body) true (u ++ [elseByte]) where
  form := by
    rw [List.reverse_cons]
    exact h.form.append (by simpa using Many.cons Form.elseMark .nil)
  proper := by
    rw [List.reverse_cons, everywhereAll_append]
    exact ⟨h.proper, by simp only [Everywhere, Proper], trivial⟩
  marks := by
    simp only [Bool.and_eq_true, Bool.not_eq_true'] at htakes
    simp [List.countP_cons, isElse, h.marks, htakes.2]
  takes _ := by
    simp only [Bool.and_eq_true] at htakes
    exact htakes.1
  depth := by
    have := h.depth
    rw [List.reverse_cons, depthAll_append]
    simp only [depthAll, Instruction.depth]
    omega

/-- The innermost sequence goes on. -/
theorem ReadSoFar.extend {body' : List Instruction} {elseSeen' : Bool}
    (h : ReadSoFar limits opened body elseSeen p)
    (hnext : ∀ u, SequenceSoFar limits opened body elseSeen u →
      SequenceSoFar limits opened body' elseSeen' (u ++ w)) :
    ReadSoFar limits opened body' elseSeen' (p ++ w) := by
  cases opened with
  | nil => exact hnext p h
  | cons b outer =>
    obtain ⟨q, t, u, houter, htype, hseq, rfl⟩ := h
    exact ⟨q, t, u ++ w, houter, htype, hnext u hseq, by simp⟩

theorem ReadSoFar.depth (h : ReadSoFar limits opened body elseSeen p) :
    opened.length ≤ limits.maxBlockDepth.toNat := by
  cases opened with
  | nil => exact Nat.zero_le _
  | cons b outer =>
    obtain ⟨q, t, u, -, -, hseq, -⟩ := h
    exact Nat.le_trans (Nat.le_add_right _ _) hseq.depth

theorem ReadSoFar.open {kind : BlockKind} {type : BlockType} {t : List UInt8}
    (h : ReadSoFar limits opened body elseSeen p) (htype : type.Form t)
    (hdepth : opened.length < limits.maxBlockDepth.toNat) :
    ReadSoFar limits (⟨kind, type, body, elseSeen⟩ :: opened) [] false (p ++ kind.toByte :: t) :=
  ⟨p, t, [], h, htype, sequenceSoFar_nil hdepth, by simp⟩

/-- A sequence ends, and with it the block that it is the body of. -/
theorem ReadSoFar.close {b : OpenBlock} (h : ReadSoFar limits (b :: outer) body elseSeen p) :
    ReadSoFar limits outer (.block b.kind b.type body.reverse :: b.before) b.elseSeen
      (p ++ [endByte]) := by
  obtain ⟨q, t, u, houter, htype, hseq, rfl⟩ := h
  have hform : Form (.block b.kind b.type body.reverse)
      (b.kind.toByte :: (t ++ (u ++ [endByte]))) := .block htype hseq.form
  have hmarks : body.reverse.countP isElse ≤ if b.kind = .conditional then 1 else 0 := by
    rw [List.countP_reverse, hseq.marks]
    cases elseSeen with
    | false => exact Nat.zero_le _
    | true =>
      have hkind : b.kind = .conditional := by simpa [takesElse] using hseq.takes rfl
      simp [hkind]
  have hproper : (block b.kind b.type body.reverse).Everywhere Proper := by
    simp only [Everywhere]
    exact ⟨hmarks, hseq.proper⟩
  have hdepth : outer.length + (block b.kind b.type body.reverse).depth ≤
      limits.maxBlockDepth.toNat := by
    have := hseq.depth
    simp only [List.length_cons] at this
    simp only [Instruction.depth]
    omega
  have hnext := houter.extend fun u' hseq' => hseq'.push hform hproper rfl hdepth
  simpa using hnext

/-- An expression that the scan has found has a form: what was read before it and what it read. -/
theorem scan_sound {used n : Nat} {c : Cursor} {e : Expression}
    (h : ReadSoFar limits opened body elseSeen p)
    (hscan : scan limits opened body elseSeen used c = .done e n) :
    ∃ k, n = used + k ∧ k ≤ c.rest.length ∧ e.Form limits (p ++ c.rest.take k) := by
  fun_induction scan limits opened body elseSeen used c generalizing p with
  | case1 opened body elseSeen used c hc => cases hscan
  | case2 body elseSeen used c rest hc =>
    cases hscan
    have hseq : SequenceSoFar limits [] body elseSeen p := h
    refine ⟨1, rfl, by simp [hc], ⟨p, hseq.form, by simp [hc]⟩, ⟨?_, hseq.proper⟩,
      by simpa using hseq.depth⟩
    rw [List.countP_reverse, hseq.marks]
    cases elseSeen with
    | false => rfl
    | true => exact absurd (hseq.takes rfl) (by simp [takesElse])
  | case3 body elseSeen used c rest inner outer hc ih =>
    simp only [List.unattach_reverse, List.unattach_attach] at ih hscan
    obtain ⟨k, rfl, hk, hform⟩ := ih h.close hscan
    refine ⟨1 + k, by omega, by simp [hc] at hk ⊢; omega, ?_⟩
    rw [List.take_add]
    simpa [hc] using hform
  | case4 opened body elseSeen used c rest htakes hc hne ih =>
    obtain ⟨k, rfl, hk, hform⟩ := ih (h.extend fun u hseq => hseq.mark htakes) hscan
    refine ⟨1 + k, by omega, by simp [hc] at hk ⊢; omega, ?_⟩
    rw [List.take_add]
    simpa [hc] using hform
  | case5 opened body elseSeen used c rest htakes hc hne => cases hscan
  | case6 opened body elseSeen used c b rest hc hend helse kind hkind hdepth type m htype ih =>
    obtain ⟨hm, hform⟩ := (BlockType.reads_reader _ _ _).mp htype
    obtain ⟨k, rfl, hk, hwhole⟩ := ih (h.open hform hdepth) hscan
    rw [BlockKind.toByte_of_ofByte? hkind] at hwhole
    simp only [hc, Cursor.drop_rest, List.length_drop, List.length_cons] at hk hm
    refine ⟨1 + m + k, by omega, by simp [hc]; omega, ?_⟩
    rw [List.take_add, List.take_add]
    simpa [hc] using hwhole
  | case7 opened body elseSeen used c b rest hc hend helse kind hkind hdepth htype => cases hscan
  | case8 opened body elseSeen used c b rest hc hend helse kind hkind hdepth error htype => cases hscan
  | case9 opened body elseSeen used c b rest hc hend helse kind hkind hdepth => cases hscan
  | case10 opened body elseSeen used c b rest hc hend helse hkind instruction m hop ih =>
    obtain ⟨hm, hproper, op, u, v, hcode, himmediates, htake⟩ :=
      (Operator.reads_reader b c.offset _ _ _).mp hop
    obtain ⟨hinside, hflat, helse'⟩ := simple_of_immediates himmediates
    have hform : Form instruction (b :: (c.drop 1).rest.take m) := by
      rw [htake]
      exact .operator hcode himmediates
    obtain ⟨k, rfl, hk, hwhole⟩ := ih (h.extend fun u hseq =>
      hseq.push hform ((hinside _).mpr hproper) helse' (by rw [hflat]; exact h.depth)) hscan
    simp only [hc, Cursor.drop_rest, List.length_drop, List.length_cons] at hk hm
    refine ⟨1 + m + k, by omega, by simp [hc]; omega, ?_⟩
    rw [List.take_add, List.take_add]
    simpa [hc] using hwhole
  | case11 opened body elseSeen used c b rest hc hend helse hkind hop => cases hscan
  | case12 opened body elseSeen used c b rest hc hend helse hkind error hop => cases hscan

section Complete
variable {used offset : Nat} {rest : List UInt8}

theorem scan_operator {op : Operator} (hcode : op.opcode.Form u) (himmediates : op.Immediates i v)
    (hproper : i.Proper) :
    scan limits opened body elseSeen used ⟨offset, (u ++ v) ++ rest⟩ =
      scan limits opened (i :: body) elseSeen (used + (u ++ v).length)
        ⟨offset + (u ++ v).length, rest⟩ := by
  obtain ⟨b, u', rfl, hend, helse, hkind⟩ := Operator.first_of_form hcode
  have hop : Operator.reader b offset ⟨offset + 1, (u' ++ v) ++ rest⟩ =
      .done i (u' ++ v).length :=
    (Operator.reads_reader b offset).complete ⟨hproper, op, u', v, hcode, himmediates, rfl⟩ _
  have hbytes : (Cursor.mk offset ((b :: u' ++ v) ++ rest)).rest = b :: ((u' ++ v) ++ rest) := rfl
  rw [scan_cons limits opened body elseSeen used hbytes, if_neg hend, if_neg helse, hkind]
  have hdrop : (Cursor.mk offset ((b :: u' ++ v) ++ rest)).drop 1 =
      ⟨offset + 1, (u' ++ v) ++ rest⟩ := rfl
  have hbehind : (Cursor.mk offset ((b :: u' ++ v) ++ rest)).drop (1 + (u' ++ v).length) =
      ⟨offset + (b :: u' ++ v).length, rest⟩ := by
    rw [Nat.add_comm 1]
    simp only [Cursor.drop, List.cons_append, List.drop_succ_cons, List.drop_left, List.length_cons]
  simp only [hdrop, hop, hbehind]
  congr 1
  simp only [List.cons_append, List.length_cons]
  omega

theorem scan_else (htakes : (takesElse opened && !elseSeen) = true) :
    scan limits opened body elseSeen used ⟨offset, elseByte :: rest⟩ =
      scan limits opened (.elseMark :: body) true (used + 1) ⟨offset + 1, rest⟩ := by
  rw [scan_cons limits opened body elseSeen used (c := ⟨offset, elseByte :: rest⟩) rfl,
    if_neg (by decide), if_pos rfl, if_pos htakes]
  rfl

theorem scan_open {kind : BlockKind} {type : BlockType} (htype : type.Form u)
    (hdepth : opened.length < limits.maxBlockDepth.toNat) :
    scan limits opened body elseSeen used ⟨offset, kind.toByte :: (u ++ rest)⟩ =
      scan limits (⟨kind, type, body, elseSeen⟩ :: opened) [] false (used + (1 + u.length))
        ⟨offset + (1 + u.length), rest⟩ := by
  have hread : BlockType.reader ⟨offset + 1, u ++ rest⟩ = .done type u.length :=
    BlockType.reads_reader.complete htype _
  have hdrop : (Cursor.mk offset (kind.toByte :: (u ++ rest))).drop 1 = ⟨offset + 1, u ++ rest⟩ := rfl
  have hbehind : (Cursor.mk offset (kind.toByte :: (u ++ rest))).drop (1 + u.length) =
      ⟨offset + (1 + u.length), rest⟩ := by
    simp [Cursor.drop, Nat.add_comm 1]
  rw [scan_cons limits opened body elseSeen used (c := ⟨offset, kind.toByte :: (u ++ rest)⟩) rfl,
    if_neg (by cases kind <;> decide), if_neg (by cases kind <;> decide)]
  simp only [BlockKind.ofByte?_toByte, if_pos hdepth, hdrop, hread, hbehind]

theorem scan_end (b : OpenBlock) :
    scan limits (b :: outer) body elseSeen used ⟨offset, endByte :: rest⟩ =
      scan limits outer (.block b.kind b.type body.reverse :: b.before) b.elseSeen (used + 1)
        ⟨offset + 1, rest⟩ := by
  rw [scan_cons limits (b :: outer) body elseSeen used (c := ⟨offset, endByte :: rest⟩) rfl,
    if_pos rfl]
  rfl

/-- The scan passes over a block if it passes over the body. -/
theorem scan_block {kind : BlockKind} {type : BlockType} {inner : List Instruction} (seen : Bool)
    (htype : type.Form u) (hdepth : opened.length < limits.maxBlockDepth.toNat)
    (hinner : ∀ used offset rest,
      scan limits (⟨kind, type, body, elseSeen⟩ :: opened) [] false used ⟨offset, v ++ rest⟩ =
        scan limits (⟨kind, type, body, elseSeen⟩ :: opened) inner.reverse seen (used + v.length)
          ⟨offset + v.length, rest⟩) :
    scan limits opened body elseSeen used
        ⟨offset, kind.toByte :: (u ++ (v ++ [endByte])) ++ rest⟩ =
      scan limits opened (.block kind type inner :: body) elseSeen
        (used + (kind.toByte :: (u ++ (v ++ [endByte]))).length)
        ⟨offset + (kind.toByte :: (u ++ (v ++ [endByte]))).length, rest⟩ := by
  have hbytes : kind.toByte :: (u ++ (v ++ [endByte])) ++ rest =
      kind.toByte :: (u ++ (v ++ (endByte :: rest))) := by simp
  have hlength : (kind.toByte :: (u ++ (v ++ [endByte]))).length = 1 + u.length + v.length + 1 := by
    simp only [List.length_cons, List.length_append, List.length_nil]
    omega
  rw [hbytes, scan_open htype hdepth, hinner, scan_end, List.reverse_reverse, hlength]
  simp only [Nat.add_assoc]

/-- The scan passes over the forms of instructions and has read just these. -/
theorem scan_forms (l : List Instruction) {w : List UInt8} {opened : List OpenBlock}
    {body : List Instruction} {elseSeen : Bool} {used offset : Nat} {rest : List UInt8}
    (hforms : Many Form l w) (hproper : EverywhereAll Proper l)
    (hmarks : l.countP isElse ≤ if takesElse opened && !elseSeen then 1 else 0)
    (hdepth : opened.length + depthAll l ≤ limits.maxBlockDepth.toNat) :
    scan limits opened body elseSeen used ⟨offset, w ++ rest⟩ =
      scan limits opened (l.reverse ++ body) (elseSeen || l.any isElse) (used + w.length)
        ⟨offset + w.length, rest⟩ := by
  match l with
  | [] =>
    obtain rfl := many_nil_iff.mp hforms
    simp
  | i :: l' =>
    obtain ⟨u, v, hform, hforms', rfl⟩ := many_cons_iff.mp hforms
    simp only [EverywhereAll, depthAll, List.countP_cons] at hproper hdepth hmarks
    have hstep : scan limits opened body elseSeen used ⟨offset, u ++ (v ++ rest)⟩ =
        scan limits opened (i :: body) (elseSeen || i.isElse) (used + u.length)
          ⟨offset + u.length, v ++ rest⟩ := by
      cases hform with
      | operator hcode himmediates =>
        obtain ⟨hinside, -, helse⟩ := simple_of_immediates himmediates
        rw [helse, Bool.or_false]
        exact scan_operator hcode himmediates ((hinside _).mp hproper.1)
      | @block kind type inner u v htype hbody =>
        simp only [Everywhere, Proper] at hproper
        simp only [Instruction.depth] at hdepth
        have helse : (block kind type inner).isElse = false := rfl
        rw [helse, Bool.or_false]
        refine scan_block (false || inner.any isElse) htype (by omega)
          fun used offset rest => ?_
        rw [scan_forms inner hbody hproper.1.2 ?_ ?_, List.append_nil]
        · simpa [takesElse] using hproper.1.1
        · simp only [List.length_cons]
          omega
      | elseMark =>
        have htakes : (takesElse opened && !elseSeen) = true := by
          cases ht : takesElse opened && !elseSeen with
          | true => rfl
          | false => simp [ht, isElse] at hmarks
        rw [isElse, Bool.or_true]
        exact scan_else htakes
    rw [List.append_assoc, hstep, scan_forms l' hforms' hproper.2 ?_ (by omega)]
    · simp only [List.reverse_cons, List.append_assoc, List.singleton_append, List.any_cons,
        List.length_append, Nat.add_assoc, Bool.or_assoc]
    · cases helse : i.isElse with
      | false => simpa [helse] using hmarks
      | true =>
        have hnone : l'.countP isElse = 0 := by
          simp only [helse, if_true] at hmarks
          split at hmarks <;> omega
        rw [hnone]
        exact Nat.zero_le _
termination_by sizeOf l

end Complete

end Instruction

namespace Expression
open Instruction

/-- The reader of expressions is exact for the well-formed ones within the limits. -/
theorem reads_reader (limits : DecoderLimits) : Reads (reader limits) (Form limits) := by
  refine reads_of (fun {c e n} h => ?_) fun {e w} h offset rest => ?_
  · have hstart : ReadSoFar limits [] [] false [] := sequenceSoFar_nil (Nat.zero_le _)
    obtain ⟨k, rfl, hk, hform⟩ := scan_sound hstart h
    rw [Nat.zero_add]
    exact ⟨hk, hform⟩
  · obtain ⟨⟨u, hforms, rfl⟩, ⟨hmarks, hproper⟩, hdepth⟩ := h
    have hwhole : reader limits ⟨offset, u ++ (endByte :: rest)⟩ =
        scan limits [] (e.reverse ++ []) (false || e.any isElse) (0 + u.length)
          ⟨offset + u.length, endByte :: rest⟩ :=
      scan_forms e hforms hproper (by omega) (by simpa using hdepth)
    rw [List.append_assoc, List.singleton_append, hwhole, scan_cons _ _ _ _ _ rfl, if_pos rfl]
    simp

end Expression
end WasmStream
