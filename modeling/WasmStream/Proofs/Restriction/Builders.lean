import WasmStream.Proofs.Grammar.EntryReaders

/-! Readers and builders under tighter limits. They do what they do under wider ones, in every state and
over all bytes, unless they come to a limit; then they say so. -/
namespace WasmStream

namespace DecoderLimits

/-- Every limit is at most the other one. -/
structure Le (limits more : DecoderLimits) : Prop where
  depth : limits.maxBlockDepth.toNat ≤ more.maxBlockDepth.toNat
  locals : limits.maxLocals.toNat ≤ more.maxLocals.toNat
  payload : limits.maxPayloadSize.toNat ≤ more.maxPayloadSize.toNat

instance : LE DecoderLimits := ⟨Le⟩

end DecoderLimits

/-- A limit was exceeded. -/
def Error.IsLimit (e : Error) : Prop := ∃ what limit offset, e = .limitExceeded what limit offset

/-- `x` is `x'`, unless a limit was exceeded. -/
def StricterResult {α : Type} (x x' : Except Error α) : Prop := x = x' ∨ ∃ e, x = .error e ∧ e.IsLimit

/-- `o` is `o'`, unless a limit was exceeded. -/
def Outcome.Stricter {α : Type} (o o' : Outcome α) : Prop := o = o' ∨ ∃ e, o = .fail e ∧ e.IsLimit

/-- Everywhere `r` reads what `r'` reads, or it exceeds a limit. -/
def Reader.Stricter {α : Type} (r r' : Reader α) : Prop := ∀ c, (r c).Stricter (r' c)

namespace Pass
variable {σ τ α : Type} {p p' : Pass σ α}

/-- `p` is `p'`, unless a limit was exceeded. -/
def Stricter (p p' : Pass σ α) : Prop := p = p' ∨ ∃ e t n, p = .failed e t n ∧ e.IsLimit

theorem Stricter.after (h : p.Stricter p') (n : Nat) : (p.after n).Stricter (p'.after n) := by
  obtain rfl | ⟨e, t, m, rfl, he⟩ := h
  · exact .inl rfl
  · exact .inr ⟨e, t, n + m, rfl, he⟩

theorem Stricter.mapState (h : p.Stricter p') (f : σ → τ) :
    (p.mapState f).Stricter (p'.mapState f) := by
  obtain rfl | ⟨e, t, m, rfl, he⟩ := h
  · exact .inl rfl
  · exact .inr ⟨e, f t, m, rfl, he⟩

end Pass

namespace Builder
variable {σ τ α β : Type} {p p' q q' : Builder σ α}

/-- In every state and everywhere `p` does what `p'` does, or it exceeds a limit. -/
def Stricter (p p' : Builder σ α) : Prop := ∀ s c, (p s c).Stricter (p' s c)

theorem stricter_refl (p : Builder σ α) : Stricter p p := fun _ _ => .inl rfl

theorem stricter_fail {e : Error} (he : e.IsLimit) (p : Builder σ α) : Stricter (fail e) p :=
  fun s _ => .inr ⟨e, s, 0, rfl, he⟩

theorem Stricter.bind {f f' : α → Builder σ β} (hp : Stricter p p')
    (hf : ∀ a, Stricter (f a) (f' a)) : Stricter (p >>= f) (p' >>= f') := by
  intro s c
  have hpass := hp s c
  rw [bind_run, bind_run]
  generalize p s c = o at hpass ⊢
  generalize p' s c = o' at hpass ⊢
  obtain rfl | ⟨e, t, n, rfl, he⟩ := hpass
  · cases o with
    | ready a t n => exact (hf a t (c.drop n)).after n
    | paused t n => exact .inl rfl
    | failed e t n => exact .inl rfl
  · exact .inr ⟨e, t, n, rfl, he⟩

theorem Stricter.ite {b : Prop} [Decidable b] (hp : Stricter p p') (hq : Stricter q q') :
    Stricter (if b then p else q) (if b then p' else q') := by
  by_cases h : b
  · simpa only [if_pos h] using hp
  · simpa only [if_neg h] using hq

/-- A check that fails under the wider limit fails under the tighter one. -/
theorem stricter_check {γ : Type} {e : Error} {g : γ → Builder σ α} {b b' : Prop} [Decidable b]
    [Decidable b'] (he : e.IsLimit) (h : b' → b) (hq : Stricter q q') :
    Stricter (if b then (fail e : Builder σ γ) >>= g else q) (if b' then p' else q') := by
  by_cases hb : b
  · rw [if_pos hb]
    exact fun s _ => .inr ⟨e, s, 0, rfl, he⟩
  · rw [if_neg hb, if_neg (mt h hb)]
    exact hq

theorem Stricter.zoom {part : σ → τ} {put : τ → σ → σ} {p p' : Builder τ α} (hp : Stricter p p') :
    Stricter (zoom part put p) (zoom part put p') :=
  fun s c => (hp (part s) c).mapState _

theorem Stricter.remember {field : σ → Option α} {put : α → σ → σ} (hp : Stricter p p') :
    Stricter (remember field put p) (remember field put p') := by
  refine (stricter_refl get).bind fun s => ?_
  cases field s with
  | some a => exact stricter_refl _
  | none => exact hp.bind fun _ => stricter_refl _

theorem stricter_read {r r' : Reader α} (hr : r.Stricter r') :
    Stricter (read r : Builder σ α) (read r') := by
  intro s c
  have hread := hr c
  unfold read
  generalize r c = o at hread ⊢
  generalize r' c = o' at hread ⊢
  obtain rfl | ⟨e, rfl, he⟩ := hread
  · exact .inl rfl
  · exact .inr ⟨e, s, 0, rfl, he⟩

theorem stricter_lift {x x' : Except Error α} (hx : StricterResult x x') :
    Stricter (lift x : Builder σ α) (lift x') := by
  obtain rfl | ⟨e, rfl, he⟩ := hx
  · exact stricter_refl _
  · exact stricter_fail he _

theorem Stricter.harvest {p p' : Builder σ Unit} (freeze : σ → Except Error α) (fresh : σ)
    (hp : Stricter p p') : Stricter (harvest p freeze fresh) (harvest p' freeze fresh) :=
  hp.bind fun _ => stricter_refl _

end Builder
open Builder

section Bounded
variable {limits more : DecoderLimits} (h : limits ≤ more)
include h

/-- A scan goes the same steps, up to the block that is nested too deep. -/
theorem Instruction.stricter_scan (opened : List OpenBlock) (body : List Instruction)
    (elseSeen : Bool) (used : Nat) (c : Cursor) :
    (scan limits opened body elseSeen used c).Stricter (scan more opened body elseSeen used c) := by
  cases hc : c.rest with
  | nil =>
    have hnil (l : DecoderLimits) : scan l opened body elseSeen used c = .needMore := by
      rw [scan.eq_def]
      split <;> simp_all
    rw [hnil, hnil]
    exact .inl rfl
  | cons b rest =>
    have hlt (n : Nat) : (c.drop (1 + n)).rest.length < c.rest.length := Cursor.length_drop_lt hc n
    rw [scan_cons limits opened body elseSeen used hc, scan_cons more opened body elseSeen used hc]
    by_cases hend : b = endByte
    · simp only [if_pos hend]
      cases opened with
      | nil => exact .inl rfl
      | cons inner outer => exact stricter_scan outer _ _ _ (c.drop 1)
    simp only [if_neg hend]
    by_cases helse : b = elseByte
    · simp only [if_pos helse]
      by_cases htakes : (takesElse opened && !elseSeen) = true
      · simp only [if_pos htakes]
        exact stricter_scan opened _ _ _ (c.drop 1)
      · simp only [if_neg htakes]
        exact .inl rfl
    simp only [if_neg helse]
    cases BlockKind.ofByte? b with
    | some kind =>
      by_cases hdepth : opened.length < limits.maxBlockDepth.toNat
      · have hwider : opened.length < more.maxBlockDepth.toNat := Nat.lt_of_lt_of_le hdepth h.depth
        simp only [if_pos hdepth, if_pos hwider]
        cases BlockType.reader (c.drop 1) with
        | done type n => exact stricter_scan _ _ _ _ (c.drop (1 + n))
        | needMore => exact .inl rfl
        | fail e => exact .inl rfl
      · simp only [if_neg hdepth]
        exact .inr ⟨_, rfl, _, _, _, rfl⟩
    | none =>
      cases Operator.reader b c.offset (c.drop 1) with
      | done instruction n => exact stricter_scan _ _ _ _ (c.drop (1 + n))
      | needMore => exact .inl rfl
      | fail e => exact .inl rfl
termination_by c.rest.length
decreasing_by
  · exact hlt 0
  · exact hlt 0
  · exact hlt _
  · exact hlt _

theorem Expression.stricter_reader : (reader limits).Stricter (reader more) :=
  Instruction.stricter_scan h [] [] false 0

/-- More bytes than a wider limit allows are more than a tighter one does. -/
theorem stricter_length {σ α β : Type} {what : String} {start : Nat} {length : UInt32}
    {g g' : β → Builder σ α} {p : Builder σ α} :
    Stricter (if limits.maxPayloadSize < length then
      (fail (.limitExceeded what limits.maxPayloadSize.toNat start) : Builder σ β) >>= g else p)
      (if more.maxPayloadSize < length then
        (fail (.limitExceeded what more.maxPayloadSize.toNat start) : Builder σ β) >>= g' else p) :=
  stricter_check ⟨_, _, _, rfl⟩
    (fun hlong => UInt32.lt_iff_toNat_lt.mpr
      (Nat.lt_of_le_of_lt h.payload (UInt32.lt_iff_toNat_lt.mp hlong))) (stricter_refl p)

theorem Pending.stricter_builder {α : Type} (freeze : List UInt8 → Except Error α) :
    Stricter (builder freeze limits.maxPayloadSize) (builder freeze more.maxPayloadSize) := by
  have hfield : Stricter (field limits.maxPayloadSize) (field more.maxPayloadSize) := by
    refine (stricter_refl get).bind fun s => ?_
    cases s with
    | filling f => exact stricter_refl _
    | awaitingLength =>
      refine (stricter_refl offset).bind fun start => (stricter_refl _).bind fun length => ?_
      exact stricter_length h
  exact hfield.bind fun _ => stricter_refl _

theorem LocalsBuilder.stricter_groupsFrom (n : Nat) :
    Stricter (groupsFrom limits n) (groupsFrom more n) := by
  have hgroup : Stricter (group limits) (group more) := by
    refine (stricter_refl offset).bind fun start => (stricter_refl _).bind fun g =>
      (stricter_refl _).bind fun _ => (stricter_refl get).bind fun b => ?_
    exact stricter_check ⟨_, _, _, rfl⟩ (Nat.lt_of_le_of_lt h.locals) (stricter_refl _)
  induction n with
  | zero => exact stricter_refl _
  | succ n ih => exact hgroup.bind fun _ => ih

theorem LocalsBuilder.stricter_builder : Stricter (builder limits) (builder more) :=
  (stricter_refl _).bind fun _ => (stricter_refl get).bind fun _ => stricter_groupsFrom h _

theorem CodeBody.stricter_contents (size : UInt32) (c : Cursor) :
    StricterResult (contents limits size c) (contents more size c) := by
  have hlocals := LocalsBuilder.stricter_builder h {} c
  unfold contents
  generalize LocalsBuilder.builder limits {} c = o at hlocals ⊢
  obtain rfl | ⟨e, t, n, rfl, he⟩ := hlocals
  · cases LocalsBuilder.builder more {} c with
    | failed e t n => exact .inl rfl
    | paused t n => exact .inl rfl
    | ready _ b n =>
      dsimp only
      cases b.freeze with
      | error e => exact .inl rfl
      | ok locals =>
        have hbody := Expression.stricter_reader h (c.drop n)
        generalize Expression.reader limits (c.drop n) = o at hbody ⊢
        obtain rfl | ⟨e, rfl, he⟩ := hbody
        · exact .inl rfl
        · exact .inr ⟨e, rfl, he⟩
  · exact .inr ⟨e, rfl, he⟩

theorem CodeBuilder.stricter_builder : Stricter (builder limits) (builder more) := by
  have hsize : Stricter (readSize limits) (readSize more) := by
    refine (stricter_refl get).bind fun b => ?_
    cases b.size with
    | some size => exact stricter_refl _
    | none =>
      refine (stricter_refl offset).bind fun start => (stricter_refl _).bind fun size => ?_
      exact stricter_length h
  refine hsize.bind fun size => Stricter.bind (Stricter.remember ?_) fun _ => stricter_refl _
  refine (stricter_refl _).bind fun _ => (stricter_refl get).bind fun b =>
    (stricter_refl _).bind fun _ => stricter_lift ?_
  cases b.body.freeze with
  | error e => exact .inl rfl
  | ok bytes => exact CodeBody.stricter_contents h size _

theorem GlobalBuilder.stricter_builder : Stricter (builder limits) (builder more) :=
  (stricter_refl _).bind fun _ =>
    (Stricter.remember (stricter_read (Expression.stricter_reader h))).bind fun _ => stricter_refl _

theorem DataBuilder.stricter_builder : Stricter (builder limits) (builder more) := by
  refine (stricter_refl _).bind fun flags => (stricter_refl _).bind fun _ => ?_
  refine (Stricter.remember ((stricter_refl _).ite
    (stricter_read (Expression.stricter_reader h)))).bind fun _ => ?_
  exact (Stricter.remember (Pending.stricter_builder h _).zoom).bind fun _ => stricter_refl _

theorem ImportBuilder.stricter_builder : Stricter (builder limits) (builder more) :=
  (Stricter.remember (Pending.stricter_builder h _).zoom).bind fun _ =>
    (Stricter.remember (Pending.stricter_builder h _).zoom).bind fun _ => stricter_refl _

theorem ExportBuilder.stricter_builder : Stricter (builder limits) (builder more) :=
  (Stricter.remember (Pending.stricter_builder h _).zoom).bind fun _ => stricter_refl _

theorem CustomBuilder.stricter_builder (sectionEnd : Nat) :
    Stricter (builder limits sectionEnd) (builder more sectionEnd) := by
  have hhead : Stricter (readHead limits sectionEnd) (readHead more sectionEnd) := by
    refine (Pending.stricter_builder h _).zoom.bind fun name => (stricter_refl offset).bind
      fun start => ?_
    refine Stricter.ite ((stricter_refl _).bind fun _ => ?_) ?_
    · exact stricter_check ⟨_, _, _, rfl⟩ (Nat.lt_of_le_of_lt h.payload) (stricter_refl _)
    · exact stricter_check ⟨_, _, _, rfl⟩ (Nat.lt_of_le_of_lt h.payload) (stricter_refl _)
  exact (Stricter.remember hhead).bind fun _ => stricter_refl _

theorem EntryBuilder.stricter_builder : Stricter (builder limits) (builder more) := by
  have hparts {σ α : Type} {p p' : Builder σ Unit} (freeze : σ → Except Error α) (fresh : σ)
      (entry : α → Entry) (hp : Stricter p p') :
      Stricter (builder.parts entry (harvest p freeze fresh))
        (builder.parts entry (harvest p' freeze fresh)) :=
    (hp.harvest freeze fresh).bind fun _ => stricter_refl _
  intro b c
  cases b with
  | type | function | table | memory => exact .inl rfl
  | imports entry => exact (hparts _ _ _ (ImportBuilder.stricter_builder h) entry c).mapState _
  | global entry => exact (hparts _ _ _ (GlobalBuilder.stricter_builder h) entry c).mapState _
  | exports entry => exact (hparts _ _ _ (ExportBuilder.stricter_builder h) entry c).mapState _
  | code entry => exact (hparts _ _ _ (CodeBuilder.stricter_builder h) entry c).mapState _
  | data entry => exact (hparts _ _ _ (DataBuilder.stricter_builder h) entry c).mapState _

end Bounded
end WasmStream
