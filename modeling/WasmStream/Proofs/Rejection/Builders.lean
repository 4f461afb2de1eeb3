import WasmStream.Proofs.Relocation.Builders

/-! Builders that have failed. What a builder keeps when it fails decides what it does if it is taken up
again. Most errors are met again at the same place. There are some that are found in bytes which have
been used by then, while the state is the one from before them: these are forgotten, and the builder
reads on behind them. -/
namespace WasmStream

/-- Errors that leave no trace: the bytes they are about have been used, and the state is as it was. -/
inductive Error.Forgotten : Error → Prop
  | magic (found : List UInt8) : Forgotten (.invalidMagic found)
  | version (found : UInt32) : Forgotten (.invalidVersion found)
  | sectionId (id : UInt8) (offset : Nat) : Forgotten (.unknownSection id offset)
  | name (fault : Utf8Fault) : Forgotten (.invalidUtf8 fault)
  | fieldLength (limit offset : Nat) : Forgotten (.limitExceeded "field length" limit offset)
  | codeSize (limit offset : Nat) : Forgotten (.limitExceeded "code body size" limit offset)
  | customPayload (limit offset : Nat) :
      Forgotten (.limitExceeded "custom section payload" limit offset)
  | dataFlags (offset : Nat) : Forgotten (.unexpectedElement "data segment flags" offset)

namespace Builder
variable {σ τ α β : Type} {P : Error → Prop} {p : Builder σ α}

/-- Once `p` has failed, it fails wherever it is taken up, at once and in the same state, unless its
error was one of `P`. -/
def FailsForGood (P : Error → Prop) (p : Builder σ α) : Prop :=
  ∀ s c e t n, p s c = .failed e t n → ¬P e →
    ∃ e', ∀ more, p t ((c.drop n).append more) = .failed e' t 0

/-- All errors of `p` are of `P`. -/
def FailsIn (P : Error → Prop) (p : Builder σ α) : Prop :=
  ∀ s c e t n, p s c = .failed e t n → P e

theorem FailsIn.forGood (h : FailsIn P p) : FailsForGood P p := by
  intro s c e t n hfailed hP
  exact absurd (h s c e t n hfailed) hP

theorem failsIn_pure (a : α) : FailsIn P (pure a : Builder σ α) := by
  intro s c e t n h
  cases h

theorem failsIn_modify (f : σ → σ) : FailsIn P (modify f) := by
  intro s c e t n h
  cases h

theorem failsIn_offset : FailsIn P (offset : Builder σ Nat) := by
  intro s c e t n h
  cases h

theorem failsIn_fail {e : Error} (he : P e) : FailsIn P (fail e : Builder σ α) := by
  intro s c e' t n h
  cases h
  exact he

theorem bind_eq_failed {f : α → Builder σ β} {s t : σ} {c : Cursor} {e : Error} {n : Nat}
    (h : (p >>= f) s c = .failed e t n) : p s c = .failed e t n ∨
      ∃ a u m l, p s c = .ready a u m ∧ f a u (c.drop m) = .failed e t l ∧ n = m + l := by
  cases hp : p s c with
  | ready a u m =>
    rw [bind_of_ready f hp] at h
    cases hf : f a u (c.drop m) with
    | ready b t' l => rw [hf] at h; cases h
    | paused t' l => rw [hf] at h; cases h
    | failed e' t' l =>
      rw [hf] at h
      cases h
      exact .inr ⟨a, u, m, l, rfl, hf, rfl⟩
  | paused u m => rw [bind_of_paused f hp] at h; cases h
  | failed e' u m =>
    rw [bind_of_failed f hp] at h
    cases h
    exact .inl rfl

theorem FailsIn.bind {f : α → Builder σ β} (hp : FailsIn P p) (hf : ∀ a, FailsIn P (f a)) :
    FailsIn P (p >>= f) := by
  intro s c e t n h
  obtain hfirst | ⟨a, u, m, l, -, hrest, -⟩ := bind_eq_failed h
  · exact hp s c e t n hfirst
  · exact hf a u (c.drop m) e t l hrest

theorem FailsIn.ite {q : Builder σ α} {b : Prop} [Decidable b] (hp : FailsIn P p)
    (hq : FailsIn P q) : FailsIn P (if b then p else q) := by
  by_cases h : b
  · simpa only [if_pos h] using hp
  · simpa only [if_neg h] using hq

theorem FailsForGood.ite {q : Builder σ α} {b : Prop} [Decidable b] (hp : FailsForGood P p)
    (hq : FailsForGood P q) : FailsForGood P (if b then p else q) := by
  by_cases h : b
  · simpa only [if_pos h] using hp
  · simpa only [if_neg h] using hq

theorem failsForGood_read {r : Reader α} (hr : r.Stable) :
    FailsForGood P (read r : Builder σ α) := by
  intro s c e t n h _
  cases hc : r c with
  | done a m => rw [read_of_done hc] at h; cases h
  | needMore => rw [read_of_needMore hc] at h; cases h
  | fail e' =>
    rw [read_of_fail hc] at h
    cases h
    exact ⟨e, fun more => read_of_fail (hr.fail hc more) s⟩

/-- Nothing that comes behind `p` may leave an error that lasts. -/
theorem FailsForGood.bind_of_in {f : α → Builder σ β} (hp : FailsForGood P p)
    (hf : ∀ a, FailsIn P (f a)) : FailsForGood P (p >>= f) := by
  intro s c e t n h hP
  obtain hfirst | ⟨a, u, m, l, -, hrest, -⟩ := bind_eq_failed h
  · obtain ⟨e', hagain⟩ := hp s c e t n hfirst hP
    exact ⟨e', fun more => bind_of_failed f (hagain more)⟩
  · exact absurd (hf a u (c.drop m) e t l hrest) hP

/-- A value together with the place where it begins. -/
theorem failsForGood_offset_read {r : Reader α} (hr : r.Stable) {g : Nat → α → Builder σ β}
    (hg : ∀ start a, FailsIn P (g start a)) :
    FailsForGood P (offset >>= fun start => read r >>= g start) := by
  have hrun (s : σ) (c : Cursor) : (offset >>= fun start => read r >>= g start) s c =
      (read r >>= g c.offset) s c := by
    rw [bind_run]
    exact Pass.after_zero _
  intro s c e t n h hP
  rw [hrun] at h
  obtain hfirst | ⟨a, u, m, l, -, hrest, -⟩ := bind_eq_failed h
  · obtain ⟨e', hagain⟩ := failsForGood_read hr s c e t n hfirst hP
    refine ⟨e', fun more => ?_⟩
    rw [hrun]
    exact bind_of_failed _ (hagain more)
  · exact absurd (hg _ a u (c.drop m) e t l hrest) hP

section Remember
variable {field : σ → Option α} {put : α → σ → σ}

theorem FailsForGood.remember (hp : FailsForGood P p) (hkeep : Keeps p field) :
    FailsForGood P (remember field put p) := by
  intro s c e t n h hP
  cases hs : field s with
  | some a => rw [remember_of_some hs] at h; cases h
  | none =>
    rw [remember_of_none hs] at h
    obtain hfirst | ⟨a, u, m, l, -, hrest, -⟩ := bind_eq_failed h
    · have ht : field t = none := by
        have hk := hkeep s c
        rw [hfirst] at hk
        exact hk.trans hs
      obtain ⟨e', hagain⟩ := hp s c e t n hfirst hP
      refine ⟨e', fun more => ?_⟩
      rw [remember_of_none ht]
      exact bind_of_failed _ (hagain more)
    · cases hrest

/-- Behind a field that has been remembered the second builder is taken up where it failed. -/
theorem FailsForGood.remember_bind {f : α → Builder σ β} (hp : FailsForGood P p)
    (hkeep : Keeps p field) (hput : ∀ a s, field (put a s) = some a)
    (hf : ∀ a, FailsForGood P (f a)) (hfkeep : ∀ a, Keeps (f a) field) :
    FailsForGood P (Builder.remember field put p >>= f) := by
  intro s c e t n h hP
  obtain hfirst | ⟨a, u, m, l, hready, hrest, hn⟩ := bind_eq_failed h
  · obtain ⟨e', hagain⟩ := hp.remember hkeep s c e t n hfirst hP
    exact ⟨e', fun more => bind_of_failed f (hagain more)⟩
  · have hstored : field u = some a := remember_stored hput hready
    have ht : field t = some a := by
      have hk := hfkeep a u (c.drop m)
      rw [hrest] at hk
      exact hk.trans hstored
    obtain ⟨e', hagain⟩ := hf a u (c.drop m) e t l hrest hP
    rw [Cursor.drop_drop, ← hn] at hagain
    refine ⟨e', fun more => ?_⟩
    rw [bind_of_ready f (remember_of_some ht _), Cursor.drop_zero, Pass.after_zero]
    exact hagain more

end Remember

theorem zoom_eq_failed {part : σ → τ} {put : τ → σ → σ} {p : Builder τ α} {s t : σ} {c : Cursor}
    {e : Error} {n : Nat} (h : zoom part put p s c = .failed e t n) :
    ∃ u, p (part s) c = .failed e u n ∧ t = put u s := by
  rw [zoom_run] at h
  cases hp : p (part s) c with
  | ready a u m => rw [hp] at h; cases h
  | paused u m => rw [hp] at h; cases h
  | failed e' u m =>
    rw [hp] at h
    cases h
    exact ⟨u, rfl, rfl⟩

theorem FailsForGood.zoom {part : σ → τ} {put : τ → σ → σ} {p : Builder τ α}
    (hp : FailsForGood P p) (hget : ∀ t s, part (put t s) = t)
    (hput : ∀ t t' s, put t' (put t s) = put t' s) : FailsForGood P (zoom part put p) := by
  intro s c e t n h hP
  obtain ⟨u, hfailed, ht⟩ := zoom_eq_failed h
  obtain ⟨e', hagain⟩ := hp (part s) c e u n hfailed hP
  refine ⟨e', fun more => ?_⟩
  rw [zoom_run, ht, hget, hagain more]
  exact congrArg (Pass.failed e' · 0) (hput u u s)

/-- What is ready can be frozen, so that a harvest fails only where the builder does. -/
theorem harvest_eq_failed {p : Builder σ Unit} {freeze : σ → Except Error α} {fresh s t : σ}
    {c : Cursor} {e : Error} {n : Nat}
    (hcomplete : ∀ {s c t n}, p s c = .ready () t n → ∃ a, freeze t = .ok a)
    (h : harvest p freeze fresh s c = .failed e t n) : p s c = .failed e t n := by
  obtain hfirst | ⟨_, u, m, l, hready, hrest, -⟩ := bind_eq_failed h
  · exact hfirst
  · obtain ⟨a, ha⟩ := hcomplete hready
    change ((lift (freeze u) fresh ((c.drop m).drop 0)).after 0).after 0 = _ at hrest
    rw [ha] at hrest
    cases hrest

theorem FailsForGood.harvest {p : Builder σ Unit} {freeze : σ → Except Error α} {fresh : σ}
    (hp : FailsForGood P p)
    (hcomplete : ∀ {s c t n}, p s c = .ready () t n → ∃ a, freeze t = .ok a) :
    FailsForGood P (harvest p freeze fresh) := by
  intro s c e t n h hP
  obtain ⟨e', hagain⟩ := hp s c e t n (harvest_eq_failed hcomplete h) hP
  exact ⟨e', fun more => bind_of_failed _ (hagain more)⟩

end Builder
open Builder

section Fields
variable {α : Type} {P : Error → Prop}

section Filled
variable {σ : Type} {part : σ → ByteField} {put : ByteField → σ → σ} {clear : σ → σ}
  {g : σ → Except Error α} {s t : σ} {c : Cursor}

theorem whenFilled_of_isComplete (h : ((part s).fill c.rest).isComplete = true) :
    whenFilled part put clear g s c =
      ((lift (g (put ((part s).fill c.rest) s)) : Builder σ α)
        (clear (put ((part s).fill c.rest) s)) (c.drop ((part s).taken c.rest))).after
          ((part s).taken c.rest) := by
  have hready : zoom part put ByteField.builder s c =
      .ready () (put ((part s).fill c.rest) s) ((part s).taken c.rest) := by
    rw [zoom_run, ByteField.builder_of_isComplete h]
    rfl
  unfold whenFilled
  rw [bind_of_ready _ hready]
  exact congrArg (Pass.after _) ((Pass.after_zero _).trans (Pass.after_zero _))

theorem whenFilled_of_not_isComplete (h : ¬((part s).fill c.rest).isComplete = true) :
    whenFilled part put clear g s c =
      .paused (put ((part s).fill c.rest) s) ((part s).taken c.rest) := by
  have hpaused : zoom part put ByteField.builder s c =
      .paused (put ((part s).fill c.rest) s) ((part s).taken c.rest) := by
    rw [zoom_run, ByteField.builder_of_not_isComplete h]
    rfl
  exact bind_of_paused _ hpaused

/-- It fails only where the value cannot be made, with the field emptied. -/
theorem whenFilled_eq_failed {e : Error} {n : Nat} (h : whenFilled part put clear g s c = .failed e t n) :
    ((part s).fill c.rest).isComplete = true ∧ g (put ((part s).fill c.rest) s) = .error e ∧
      t = clear (put ((part s).fill c.rest) s) := by
  by_cases hfull : ((part s).fill c.rest).isComplete = true
  · rw [whenFilled_of_isComplete hfull] at h
    cases hg : g (put ((part s).fill c.rest) s) with
    | ok a => rw [hg] at h; cases h
    | error e' =>
      rw [hg] at h
      cases h
      exact ⟨hfull, rfl, rfl⟩
  · rw [whenFilled_of_not_isComplete hfull] at h
    cases h

end Filled

theorem ByteField.fill_empty (available : List UInt8) :
    (ofLength 0).fill available = ofLength 0 := by simp [fill, ofLength]

theorem ByteField.taken_empty (available : List UInt8) : (ofLength 0).taken available = 0 := by
  simp [taken, ofLength]

theorem readName_forgotten {bytes : List UInt8} {e : Error} (h : readName bytes = .error e) :
    e.Forgotten := by
  unfold readName at h
  cases hd : Utf8.decode bytes with
  | ok text => rw [hd] at h; cases h
  | error fault =>
    rw [hd] at h
    cases h
    exact .name fault

theorem Reader.fail_u32 {c : Cursor} {e : Error} (h : Reader.u32 c = .fail e) :
    e = .integerTooLarge false 32 c.offset := by
  rw [Reader.u32, Reader.bind_run, Reader.unsigned] at h
  cases hs : Leb128.scanUnsigned 32 c.rest with
  | value v n => rw [hs] at h; cases h
  | incomplete => rw [hs] at h; cases h
  | overflow =>
    rw [hs] at h
    cases h
    rfl

theorem Pending.fillPart_eq_failed {freeze : List UInt8 → Except Error α} {f : ByteField}
    {s t : Pending} {c : Cursor} {e : Error} {n : Nat} (h : fillPart freeze f s c = .failed e t n) :
    ∃ bytes, freeze bytes = .error e := by
  by_cases hfull : (f.fill c.rest).isComplete = true
  · have hclose := close_of_isComplete freeze hfull
    cases hfrozen : freeze (f.fill c.rest).filled with
    | ok a => rw [fillPart_of_ok hfull (hclose.trans hfrozen)] at h; cases h
    | error e' =>
      rw [fillPart_of_error hfull (hclose.trans hfrozen)] at h
      cases h
      exact ⟨_, hfrozen⟩
  · rw [fillPart_of_not_isComplete hfull] at h; cases h

/-- A length that cannot be read is not used; a length that is too large, and bytes that are no value,
are. -/
theorem Pending.builder_eq_failed {freeze : List UInt8 → Except Error α} {maxLength : UInt32}
    {s t : Pending} {c : Cursor} {e : Error} {n : Nat}
    (h : Pending.builder freeze maxLength s c = .failed e t n) :
    (t = awaitingLength ∧ n = 0 ∧ Reader.u32 c = .fail e) ∨
      (e = .limitExceeded "field length" maxLength.toNat c.offset) ∨
      ∃ bytes, freeze bytes = .error e := by
  cases s with
  | filling f =>
    rw [builder_filling] at h
    exact .inr (.inr (fillPart_eq_failed h))
  | awaitingLength =>
    rw [builder_awaitingLength] at h
    cases hc : Reader.u32 c with
    | done length m =>
      rw [hc] at h
      by_cases hl : maxLength < length
      · simp only [if_pos hl] at h
        cases h
        exact .inr (.inl rfl)
      · simp only [if_neg hl] at h
        cases hfill : fillPart freeze (.ofLength length.toNat) (filling (.ofLength length.toNat))
            (c.drop m) with
        | ready a u l => rw [hfill] at h; cases h
        | paused u l => rw [hfill] at h; cases h
        | failed e' u l =>
          rw [hfill] at h
          cases h
          exact .inr (.inr (fillPart_eq_failed hfill))
    | needMore => rw [hc] at h; cases h
    | fail e' =>
      rw [hc] at h
      cases h
      exact .inl ⟨rfl, rfl, rfl⟩

theorem Pending.failsForGood_builder {freeze : List UInt8 → Except Error α} {maxLength : UInt32}
    (hlimit : ∀ limit offset, P (.limitExceeded "field length" limit offset))
    (hfreeze : ∀ bytes e, freeze bytes = .error e → P e) :
    FailsForGood P (Pending.builder freeze maxLength) := by
  intro s c e t n h hP
  obtain ⟨ht, hn, hread⟩ | he | ⟨bytes, hbytes⟩ := builder_eq_failed h
  · refine ⟨e, fun more => ?_⟩
    rw [ht, hn, Cursor.drop_zero, builder_awaitingLength, Reader.stable_u32.fail hread more]
  · rw [he] at hP
    exact absurd (hlimit _ _) hP
  · exact absurd (hfreeze bytes e hbytes) hP

end Fields

section Entries
variable (limits : DecoderLimits)

/-- A field that is written with its length, as a part of a state. -/
theorem failsForGood_pendingField {σ α : Type} {P : Error → Prop} {part : σ → Pending}
    {put : Pending → σ → σ} {freeze : List UInt8 → Except Error α}
    (hlimit : ∀ limit offset, P (.limitExceeded "field length" limit offset))
    (hfreeze : ∀ bytes e, freeze bytes = .error e → P e) (hget : ∀ t s, part (put t s) = t)
    (hput : ∀ t t' s, put t' (put t s) = put t' s) :
    FailsForGood P (zoom part put (Pending.builder freeze limits.maxPayloadSize)) :=
  (Pending.failsForGood_builder hlimit hfreeze).zoom hget hput

theorem GlobalBuilder.failsForGood_builder : FailsForGood Error.Forgotten (builder limits) := by
  have hinit : FailsForGood Error.Forgotten (Builder.remember GlobalBuilder.init
      (fun e b => { b with init := some e }) (read (Expression.reader limits))) :=
    (failsForGood_read (Expression.stable_reader limits)).remember (keeps_read _)
  apply FailsForGood.remember_bind
  · exact failsForGood_read GlobalType.stable_reader
  · exact keeps_read _
  · exact fun _ _ => rfl
  · exact fun _ => hinit.bind_of_in fun _ => failsIn_pure ()
  · exact fun _ => Keeps.bind (Keeps.remember (keeps_read _) fun _ _ => rfl) fun _ => keeps_pure ()

theorem DataBuilder.failsForGood_readFlags : FailsForGood Error.Forgotten readFlags := by
  apply failsForGood_offset_read Reader.stable_u32
  intro start flags
  have hforgotten := failsIn_fail (σ := DataBuilder) (α := PUnit) (Error.Forgotten.dataFlags start)
  exact (hforgotten.bind fun _ => failsIn_pure flags).ite (failsIn_pure flags)

theorem DataBuilder.failsForGood_builder : FailsForGood Error.Forgotten (builder limits) := by
  have hbytes {τ : Type} (part : DataBuilder → τ)
      (hpart : ∀ p b, part { b with payload := p } = part b)
      (hput : ∀ p b, part { b with bytes := some p } = part b) :
      Keeps (Builder.remember bytes (fun p b => { b with bytes := some p })
        (zoom payload (fun p b => { b with payload := p })
          (Pending.builder .ok limits.maxPayloadSize)) >>= fun _ => pure ()) part :=
    Keeps.bind (Keeps.remember (keeps_zoom _ hpart) hput) fun _ => keeps_pure ()
  have hpayload : FailsForGood Error.Forgotten (zoom DataBuilder.payload
      (fun p b => { b with payload := p }) (Pending.builder .ok limits.maxPayloadSize)) :=
    failsForGood_pendingField limits .fieldLength (fun _ _ h => by cases h) (fun _ _ => rfl)
      fun _ _ _ => rfl
  apply FailsForGood.remember_bind
  · exact failsForGood_readFlags
  · exact keeps_readFlags _
  · exact fun _ _ => rfl
  · intro flags
    apply FailsForGood.remember_bind
    · exact (failsForGood_read Reader.stable_u32).ite (failsIn_pure 0).forGood
    · exact Keeps.ite (keeps_read _) (keeps_pure 0)
    · exact fun _ _ => rfl
    · intro memoryIndex
      apply FailsForGood.remember_bind
      · exact (failsIn_pure []).forGood.ite (failsForGood_read (Expression.stable_reader limits))
      · exact Keeps.ite (keeps_pure []) (keeps_read _)
      · exact fun _ _ => rfl
      · exact fun _ => (hpayload.remember (keeps_zoom _ fun _ _ => rfl)).bind_of_in
          fun _ => failsIn_pure ()
      · exact fun _ => hbytes _ (fun _ _ => rfl) fun _ _ => rfl
    · exact fun _ => Keeps.bind (Keeps.remember (Keeps.ite (keeps_pure []) (keeps_read _))
        fun _ _ => rfl) fun _ => hbytes _ (fun _ _ => rfl) fun _ _ => rfl
  · exact fun _ => Keeps.bind (Keeps.remember (Keeps.ite (keeps_read _) (keeps_pure 0))
      fun _ _ => rfl) fun _ => Keeps.bind (Keeps.remember (Keeps.ite (keeps_pure []) (keeps_read _))
        fun _ _ => rfl) fun _ => hbytes _ (fun _ _ => rfl) fun _ _ => rfl

theorem ImportBuilder.failsForGood_builder : FailsForGood Error.Forgotten (builder limits) := by
  have hname {part : ImportBuilder → Pending} {put : Pending → ImportBuilder → ImportBuilder}
      (hget : ∀ t s, part (put t s) = t) (hput : ∀ t t' s, put t' (put t s) = put t' s) :
      FailsForGood Error.Forgotten
        (zoom part put (Pending.builder readName limits.maxPayloadSize)) :=
    failsForGood_pendingField limits .fieldLength (fun _ _ => readName_forgotten) hget hput
  have hdesc : FailsForGood Error.Forgotten (Builder.remember ImportBuilder.desc
      (fun d b => { b with desc := some d }) (read ImportDesc.reader)) :=
    (failsForGood_read ImportDesc.stable_reader).remember (keeps_read _)
  apply FailsForGood.remember_bind
  · exact hname (fun _ _ => rfl) fun _ _ _ => rfl
  · exact keeps_zoom _ fun _ _ => rfl
  · exact fun _ _ => rfl
  · intro moduleName
    apply FailsForGood.remember_bind
    · exact hname (fun _ _ => rfl) fun _ _ _ => rfl
    · exact keeps_zoom _ fun _ _ => rfl
    · exact fun _ _ => rfl
    · exact fun _ => hdesc.bind_of_in fun _ => failsIn_pure ()
    · exact fun _ =>
        Keeps.bind (Keeps.remember (keeps_read _) fun _ _ => rfl) fun _ => keeps_pure ()
  · exact fun _ => Keeps.bind (Keeps.remember (keeps_zoom _ fun _ _ => rfl) fun _ _ => rfl) fun _ =>
      Keeps.bind (Keeps.remember (keeps_read _) fun _ _ => rfl) fun _ => keeps_pure ()

theorem ExportBuilder.failsForGood_builder : FailsForGood Error.Forgotten (builder limits) := by
  have hname : FailsForGood Error.Forgotten (zoom ExportBuilder.nameField
      (fun p b => { b with nameField := p }) (Pending.builder readName limits.maxPayloadSize)) :=
    failsForGood_pendingField limits .fieldLength (fun _ _ => readName_forgotten) (fun _ _ => rfl)
      fun _ _ _ => rfl
  have htarget : FailsForGood Error.Forgotten (Builder.remember ExportBuilder.target
      (fun t b => { b with target := some t }) (read Export.targetReader)) :=
    (failsForGood_read Export.stable_targetReader).remember (keeps_read _)
  apply FailsForGood.remember_bind
  · exact hname
  · exact keeps_zoom _ fun _ _ => rfl
  · exact fun _ _ => rfl
  · exact fun _ => htarget.bind_of_in fun _ => failsIn_pure ()
  · exact fun _ => Keeps.bind (Keeps.remember (keeps_read _) fun _ _ => rfl) fun _ => keeps_pure ()

end Entries

namespace CodeBuilder
variable (limits : DecoderLimits)

theorem failsForGood_freshSize : FailsForGood Error.Forgotten (freshSize limits) := by
  apply failsForGood_offset_read Reader.stable_u32
  intro start size
  have hput : FailsIn Error.Forgotten (do
      let bodyOffset ← Builder.offset
      Builder.modify fun b => { b with bodyOffset := bodyOffset, body := .ofLength size.toNat }
      return size : Builder CodeBuilder UInt32) :=
    failsIn_offset.bind fun _ => (failsIn_modify _).bind fun _ => failsIn_pure size
  have hforgotten := failsIn_fail (σ := CodeBuilder) (α := PUnit)
    (Error.Forgotten.codeSize limits.maxPayloadSize.toNat start)
  exact (hforgotten.bind fun _ => hput).ite hput

/-- Without bytes there is no body. -/
theorem contents_nil (size : UInt32) (offset : Nat) :
    ∃ e, CodeBody.contents limits size ⟨offset, []⟩ = .error e := ⟨_, rfl⟩

theorem bodyPart_eq (size : UInt32) : bodyPart limits size =
    whenFilled body (fun f b => { b with body := f }) (fun b => { b with body := .ofLength 0 })
      (fun b => do CodeBody.contents limits size ⟨b.bodyOffset, ← b.body.freeze⟩) := rfl

/-- A body that has been emptied is complete at once, and refused. -/
theorem bodyPart_of_emptied {b : CodeBuilder} (h : b.body = .ofLength 0) (size : UInt32) :
    ∃ e, ∀ c, bodyPart limits size b c = .failed e b 0 := by
  obtain ⟨e, he⟩ := contents_nil limits size b.bodyOffset
  refine ⟨e, fun c => ?_⟩
  have hfill : b.body.fill c.rest = .ofLength 0 := by rw [h, ByteField.fill_empty]
  have hsame : { b with body := .ofLength 0 } = b := by rw [← h]
  have hfull : (b.body.fill c.rest).isComplete = true := by
    rw [hfill]
    rfl
  rw [bodyPart_eq, whenFilled_of_isComplete hfull, hfill, h, ByteField.taken_empty, Pass.after_zero]
  change (lift (CodeBody.contents limits size ⟨b.bodyOffset, []⟩) : Builder CodeBuilder _)
    { b with body := .ofLength 0 } (c.drop 0) = _
  rw [he, hsame]
  rfl

/-- The bytes of a body that has been refused are gone. -/
theorem failsForGood_bodyPart {P : Error → Prop} (size : UInt32) :
    FailsForGood P (bodyPart limits size) := by
  intro b c e t n h _
  obtain ⟨-, -, ht⟩ := whenFilled_eq_failed h
  have hemptied : t.body = .ofLength 0 := by rw [ht]
  obtain ⟨e', hagain⟩ := bodyPart_of_emptied limits hemptied size
  exact ⟨e', fun more => hagain _⟩

theorem keeps_bodyPart {τ : Type} (part : CodeBuilder → τ) (size : UInt32)
    (hpart : ∀ f b, part { b with body := f } = part b) : Keeps (bodyPart limits size) part :=
  keeps_whenFilled hpart fun _ => hpart _ _

theorem failsForGood_builder : FailsForGood Error.Forgotten (builder limits) := by
  rw [builder_eq, readSize_eq]
  apply FailsForGood.remember_bind
  · exact failsForGood_freshSize limits
  · exact keeps_freshSize limits
  · exact fun _ _ => rfl
  · intro size
    have hdecoded : FailsForGood Error.Forgotten (Builder.remember decoded
        (fun d b => { b with decoded := some d }) (bodyPart limits size)) :=
      (failsForGood_bodyPart limits size).remember (keeps_bodyPart limits _ size fun _ _ => rfl)
    exact hdecoded.bind_of_in fun _ => failsIn_pure ()
  · exact fun _ => Keeps.bind (Keeps.remember (keeps_bodyPart limits CodeBuilder.size _
      fun _ _ => rfl) fun _ _ => rfl) fun _ => keeps_pure ()

end CodeBuilder

namespace CustomBuilder
variable (limits : DecoderLimits) {sectionEnd : Nat}

/-- The errors that leave the name of a custom section unread. -/
inductive NameRefused : Error → Prop
  | forgotten {e : Error} (h : e.Forgotten) : NameRefused e
  | pastEnd (name : String) (sectionEnd : Nat) : NameRefused (.customNamePastEnd name sectionEnd)

theorem failsForGood_name :
    FailsForGood NameRefused (zoom nameField (fun p b => { b with nameField := p })
      (Pending.builder readName limits.maxPayloadSize)) :=
  failsForGood_pendingField limits (fun _ _ => .forgotten (.fieldLength _ _))
    (fun _ _ h => .forgotten (readName_forgotten h)) (fun _ _ => rfl) fun _ _ _ => rfl

theorem failsForGood_readHead : FailsForGood NameRefused (readHead limits sectionEnd) := by
  apply (failsForGood_name limits).bind_of_in
  intro name
  refine failsIn_offset.bind fun start => ?_
  dsimp only
  have hput : FailsIn NameRefused (do
      Builder.modify fun b => { b with payload := .ofLength (sectionEnd - start) }
      return name : Builder CustomBuilder String) :=
    (failsIn_modify _).bind fun _ => failsIn_pure name
  have hpast := failsIn_fail (σ := CustomBuilder) (α := PUnit)
    (NameRefused.pastEnd name sectionEnd)
  have hlimit := failsIn_fail (σ := CustomBuilder) (α := PUnit)
    (NameRefused.forgotten (.customPayload limits.maxPayloadSize.toNat start))
  have hrest := (hlimit.bind fun _ => hput).ite (b := limits.maxPayloadSize.toNat <
    sectionEnd - start) hput
  exact (hpast.bind fun _ => hrest).ite hrest

/-- The payload behind the name is whatever stands there. -/
def payloadPart : Builder CustomBuilder (List UInt8) :=
  whenFilled payload (fun f b => { b with payload := f }) (fun b => { b with payload := .ofLength 0 })
    fun b => b.payload.freeze

theorem builder_eq : builder limits sectionEnd =
    Builder.remember name (fun n b => { b with name := some n }) (readHead limits sectionEnd) >>=
      fun _ => Builder.remember bytes (fun p b => { b with bytes := some p }) payloadPart >>=
        fun _ => pure () := rfl

theorem failsIn_payloadPart {P : Error → Prop} : FailsIn P payloadPart := by
  intro b c e t n h
  obtain ⟨hfull, hfrozen, -⟩ := whenFilled_eq_failed h
  have hok : (b.payload.fill c.rest).freeze = .ok (b.payload.fill c.rest).filled :=
    ByteField.freeze_of_isComplete hfull
  cases hfrozen.symm.trans hok

theorem keeps_payloadPart : Keeps payloadPart CustomBuilder.name :=
  keeps_whenFilled (fun _ _ => rfl) fun _ => rfl

theorem failsIn_payload {P : Error → Prop} : FailsIn P
    (Builder.remember bytes (fun p b => { b with bytes := some p }) payloadPart >>= fun _ => pure ()) := by
  refine FailsIn.bind ?_ fun _ => failsIn_pure ()
  intro b c e t n h
  cases hb : b.bytes with
  | some bytes => rw [remember_of_some hb] at h; cases h
  | none =>
    rw [remember_of_none hb] at h
    have hrest : FailsIn P (payloadPart >>= fun bytes =>
        Builder.modify (fun b => { b with bytes := some bytes }) >>= fun _ => pure bytes) :=
      failsIn_payloadPart.bind fun bytes => (failsIn_modify _).bind fun _ => failsIn_pure bytes
    exact hrest b c e t n h

theorem keeps_payload : Keeps (Builder.remember bytes (fun p b => { b with bytes := some p })
    payloadPart >>= fun _ => pure ()) CustomBuilder.name :=
  Keeps.bind (Keeps.remember keeps_payloadPart fun _ _ => rfl) fun _ => keeps_pure ()

theorem failsForGood_builder : FailsForGood NameRefused (builder limits sectionEnd) := by
  rw [builder_eq]
  apply FailsForGood.remember_bind
  · exact failsForGood_readHead limits
  · exact keeps_readHead limits sectionEnd
  · exact fun _ _ => rfl
  · exact fun _ => failsIn_payload.forGood
  · exact fun _ => keeps_payload

/-- Behind the name its end is compared with the end of the section. -/
theorem readHead_run (b : CustomBuilder) (c : Cursor) : readHead limits sectionEnd b c =
    match zoom nameField (fun p b => { b with nameField := p })
      (Pending.builder readName limits.maxPayloadSize) b c with
    | .ready name t n =>
      if sectionEnd < c.offset + n then .failed (.customNamePastEnd name sectionEnd) t n
      else if limits.maxPayloadSize.toNat < sectionEnd - (c.offset + n) then
        .failed (.limitExceeded "custom section payload" limits.maxPayloadSize.toNat
          (c.offset + n)) t n
      else .ready name { t with payload := .ofLength (sectionEnd - (c.offset + n)) } n
    | .paused t n => .paused t n
    | .failed e t n => .failed e t n := by
  unfold readHead
  rw [bind_run]
  cases zoom nameField (fun p b => { b with nameField := p })
      (Pending.builder readName limits.maxPayloadSize) b c with
  | ready name t n =>
    simp only [bind_run, Builder.offset, Cursor.drop_zero, Pass.after_zero, Cursor.drop_offset]
    by_cases hpast : sectionEnd < c.offset + n
    · simp only [if_pos hpast]
      rfl
    · by_cases hlimit : limits.maxPayloadSize.toNat < sectionEnd - (c.offset + n)
      · simp only [if_neg hpast, if_pos hlimit]
        rfl
      · simp only [if_neg hpast, if_neg hlimit]
        rfl
  | paused t n => rfl
  | failed e t n => rfl

theorem offset_le_of_readHead {b t : CustomBuilder} {c : Cursor} {name : String} {n : Nat}
    (h : readHead limits sectionEnd b c = .ready name t n) : c.offset + n ≤ sectionEnd := by
  rw [readHead_run] at h
  split at h
  · split at h
    · cases h
    · next hpast =>
      split at h
      · cases h
      · cases h
        exact Nat.le_of_not_lt hpast
  · cases h
  · cases h

theorem offset_lt_of_readHead {b t : CustomBuilder} {c : Cursor} {name : String} {stop n : Nat}
    (h : readHead limits sectionEnd b c = .failed (.customNamePastEnd name stop) t n) :
    sectionEnd < c.offset + n := by
  rw [readHead_run] at h
  split at h
  · split at h
    · next hpast =>
      cases h
      exact hpast
    · split at h
      · cases h
      · cases h
  · cases h
  · next e t' n' hname =>
    cases h
    obtain ⟨u, hpending, -⟩ := zoom_eq_failed hname
    obtain ⟨-, -, hread⟩ | he | ⟨bytes, hbytes⟩ := Pending.builder_eq_failed hpending
    · cases Reader.fail_u32 hread
    · cases he
    · cases readName_forgotten hbytes

/-- The name of a section is refused where it reaches past the end of the section. -/
theorem name_of_pastEnd {b t : CustomBuilder} {c : Cursor} {name : String} {stop n : Nat}
    (h : builder limits sectionEnd b c = .failed (.customNamePastEnd name stop) t n) :
    t.name = none ∧ sectionEnd < c.offset + n := by
  rw [builder_eq] at h
  obtain hfirst | ⟨a, u, m, l, -, hrest, -⟩ := bind_eq_failed h
  · cases hb : b.name with
    | some name => rw [remember_of_some hb] at hfirst; cases hfirst
    | none =>
      rw [remember_of_none hb] at hfirst
      obtain hhead | ⟨a, u, m, l, -, hput, -⟩ := bind_eq_failed hfirst
      · have hkeep := keeps_readHead limits sectionEnd b c
        rw [hhead] at hkeep
        exact ⟨hkeep.trans hb, offset_lt_of_readHead limits hhead⟩
      · cases hput
  · exact absurd hrest fun hfailed =>
      failsIn_payload (P := fun _ => False) u (c.drop m) _ t l hfailed

/-- Behind the end of its section no name is accepted. -/
theorem behind_end {b : CustomBuilder} {c : Cursor} (hname : b.name = none)
    (hpast : sectionEnd < c.offset) :
    (∃ t n, builder limits sectionEnd b c = .paused t n ∧ t.name = none) ∨
      ∃ e t n, builder limits sectionEnd b c = .failed e t n ∧ t.name = none := by
  have hkeep := keeps_readHead limits sectionEnd b c
  rw [builder_eq]
  cases hhead : readHead limits sectionEnd b c with
  | ready name t n =>
    have hle := offset_le_of_readHead limits hhead
    omega
  | paused t n =>
    rw [hhead] at hkeep
    have hpaused := bind_of_paused (fun name : String =>
      Builder.modify (fun b : CustomBuilder => { b with name := some name }) >>= fun _ => pure name)
      hhead
    rw [← remember_of_none hname] at hpaused
    exact .inl ⟨t, n, bind_of_paused _ hpaused, hkeep.trans hname⟩
  | failed e t n =>
    rw [hhead] at hkeep
    have hfailed := bind_of_failed (fun name : String =>
      Builder.modify (fun b : CustomBuilder => { b with name := some name }) >>= fun _ => pure name)
      hhead
    rw [← remember_of_none hname] at hfailed
    exact .inr ⟨e, t, n, bind_of_failed _ hfailed, hkeep.trans hname⟩

end CustomBuilder

namespace EntryBuilder
variable (limits : DecoderLimits)

theorem failsForGood_whole {α : Type} {P : Error → Prop} {r : Reader α} (hr : r.Stable)
    (entry : α → Entry) : FailsForGood P (whole r entry) :=
  (failsForGood_read hr).bind_of_in fun _ => failsIn_pure _

/-- A builder inside another fails as it does. -/
theorem failsAgain_inside {σ α : Type} {P : Error → Prop} {p : Builder σ α} {entry : α → Entry}
    {inside : σ → EntryBuilder} (hp : FailsForGood P p)
    (hbuilder : ∀ s c, builder limits (inside s) c = (builder.parts entry p s c).mapState inside)
    {s : σ} {t : EntryBuilder} {c : Cursor} {e : Error} {n : Nat}
    (h : builder limits (inside s) c = .failed e t n) (hP : ¬P e) :
    ∃ e', ∀ more, builder limits t ((c.drop n).append more) = .failed e' t 0 := by
  have hparts : FailsForGood P (builder.parts entry p) :=
    hp.bind_of_in fun a => failsIn_pure (entry a)
  rw [hbuilder] at h
  cases hpass : builder.parts entry p s c with
  | ready a u m => rw [hpass] at h; cases h
  | paused u m => rw [hpass] at h; cases h
  | failed e' u m =>
    rw [hpass] at h
    cases h
    obtain ⟨e', hagain⟩ := hparts s c e u n hpass hP
    refine ⟨e', fun more => ?_⟩
    rw [hbuilder, hagain more]
    rfl

theorem failsForGood_builder : FailsForGood Error.Forgotten (builder limits) := by
  intro b c e t n h hP
  have hwhole {α : Type} {r : Reader α} (hr : r.Stable) (entry : α → Entry)
      (hb : ∀ c, builder limits b c = whole r entry b c) :
      ∃ e', ∀ more, builder limits t ((c.drop n).append more) = .failed e' t 0 := by
    have hkeep : Keeps (whole r entry) id := Keeps.bind (keeps_read r) fun _ => keeps_pure _
    have hstate := hkeep b c
    rw [hb] at h
    rw [h] at hstate
    have ht : t = b := hstate
    obtain ⟨e', hagain⟩ := failsForGood_whole hr entry b c e t n h hP
    refine ⟨e', fun more => ?_⟩
    rw [ht] at hagain ⊢
    exact (hb _).trans (hagain more)
  cases b with
  | type => exact hwhole FuncType.stable_reader .type fun _ => rfl
  | function => exact hwhole Reader.stable_u32 .function fun _ => rfl
  | table => exact hwhole TableType.stable_reader .table fun _ => rfl
  | memory => exact hwhole Limits.stable_reader .memory fun _ => rfl
  | imports p =>
    exact failsAgain_inside limits ((ImportBuilder.failsForGood_builder limits).harvest
      (ImportBuilder.freeze_of_ready limits)) (fun _ _ => rfl) h hP
  | global p =>
    exact failsAgain_inside limits ((GlobalBuilder.failsForGood_builder limits).harvest
      (GlobalBuilder.freeze_of_ready limits)) (fun _ _ => rfl) h hP
  | exports p =>
    exact failsAgain_inside limits ((ExportBuilder.failsForGood_builder limits).harvest
      (ExportBuilder.freeze_of_ready limits)) (fun _ _ => rfl) h hP
  | code p =>
    exact failsAgain_inside limits ((CodeBuilder.failsForGood_builder limits).harvest
      (CodeBuilder.freeze_of_ready limits)) (fun _ _ => rfl) h hP
  | data p =>
    exact failsAgain_inside limits ((DataBuilder.failsForGood_builder limits).harvest
      (DataBuilder.freeze_of_ready limits)) (fun _ _ => rfl) h hP

end EntryBuilder
end WasmStream
