import WasmStream.Proofs.Resumption

/-! The builders of section entries can be cut anywhere: between their fields, and inside a field whose
bytes are on the way. -/
namespace WasmStream
open Builder

namespace ByteField

theorem fill_append (f : ByteField) (first more : List UInt8) :
    f.fill (first ++ more) = (f.fill first).fill more := by
  simp only [fill, List.take_append, List.length_append, List.length_take, List.append_assoc,
    mk.injEq, List.append_cancel_left_eq, Nat.sub_sub]
  refine ⟨?_, ?_⟩
  · rw [show f.missing - min f.missing first.length = f.missing - first.length by omega]
  · omega

theorem taken_le (f : ByteField) (available : List UInt8) : f.taken available ≤ available.length := by
  simp only [taken, List.length_take]
  omega

theorem isComplete_fill_iff (f : ByteField) (available : List UInt8) :
    (f.fill available).isComplete = true ↔ f.missing ≤ available.length := by
  rw [isComplete, beq_iff_eq, missing_fill]
  omega

/-- A field that is complete takes nothing of what comes later. -/
theorem fill_append_of_isComplete {f : ByteField} {first : List UInt8}
    (h : (f.fill first).isComplete = true) (more : List UInt8) :
    f.fill (first ++ more) = f.fill first ∧ f.taken (first ++ more) = f.taken first := by
  have hle := (isComplete_fill_iff f first).mp h
  simp only [fill, taken, List.take_append_of_le_length hle, and_self]

/-- A field that is not complete has taken all there was. -/
theorem taken_append_of_not_isComplete {f : ByteField} {first : List UInt8}
    (h : ¬(f.fill first).isComplete = true) (more : List UInt8) :
    f.taken first = first.length ∧
      f.taken (first ++ more) = first.length + (f.fill first).taken more := by
  rw [isComplete_fill_iff] at h
  simp only [taken, missing_fill, List.length_take, List.length_append]
  omega

theorem builder_of_isComplete {f : ByteField} {c : Cursor}
    (h : (f.fill c.rest).isComplete = true) :
    builder f c = .ready () (f.fill c.rest) (f.taken c.rest) := by
  simp only [builder, h, if_true]

theorem builder_of_not_isComplete {f : ByteField} {c : Cursor}
    (h : ¬(f.fill c.rest).isComplete = true) :
    builder f c = .paused (f.fill c.rest) (f.taken c.rest) := by
  simp only [builder, if_neg h]

theorem resumable_builder : Resumable builder := by
  intro f c
  by_cases h : (f.fill c.rest).isComplete = true
  · rw [builder_of_isComplete h]
    refine ⟨taken_le f c.rest, fun more => ?_⟩
    obtain ⟨hfill, htaken⟩ := fill_append_of_isComplete h more
    rw [builder_of_isComplete (by rwa [Cursor.append_rest, hfill]), Cursor.append_rest, hfill,
      htaken, resume_ready]
  · rw [builder_of_not_isComplete h]
    refine ⟨taken_le f c.rest, fun more => ?_⟩
    obtain ⟨hall, htaken⟩ := taken_append_of_not_isComplete h more
    have hrest : ((c.drop (f.taken c.rest)).append more).rest = more := by simp [hall]
    have hfill : f.fill (c.append more).rest = (f.fill c.rest).fill more := by
      rw [Cursor.append_rest, fill_append]
    rw [resume_paused]
    by_cases hmore : ((f.fill c.rest).fill more).isComplete = true
    · rw [builder_of_isComplete (by rwa [hfill]), builder_of_isComplete (by rwa [hrest]), hfill,
        hrest, Cursor.append_rest, htaken, Pass.after_ready, hall]
    · rw [builder_of_not_isComplete (by rwa [hfill]), builder_of_not_isComplete (by rwa [hrest]),
        hfill, hrest, Cursor.append_rest, htaken, Pass.after_paused, hall]

end ByteField

namespace Pending
variable {α : Type}

/-- What is done with a field that has become complete. -/
def close (freeze : List UInt8 → Except Error α) (f : ByteField) : Except Error α := do
  freeze (← f.freeze)

/-- The part of the builder behind the length. -/
def fillPart (freeze : List UInt8 → Except Error α) (f : ByteField) : Builder Pending α :=
  complete f >>= fun f => lift (close freeze f)

theorem builder_eq (freeze : List UInt8 → Except Error α) (maxLength : UInt32) :
    builder freeze maxLength = field maxLength >>= fillPart freeze := rfl

section FillPart
variable {freeze : List UInt8 → Except Error α} {f : ByteField} {c : Cursor}

theorem fillPart_of_ok (h : (f.fill c.rest).isComplete = true) {a : α}
    (hclose : close freeze (f.fill c.rest) = .ok a) (s : Pending) :
    fillPart freeze f s c = .ready a awaitingLength (f.taken c.rest) := by
  have hc : complete f s c = .ready (f.fill c.rest) awaitingLength (f.taken c.rest) := by
    simp only [complete, h, if_true]
  rw [fillPart, bind_of_ready _ hc, hclose]
  rfl

theorem fillPart_of_error (h : (f.fill c.rest).isComplete = true) {e : Error}
    (hclose : close freeze (f.fill c.rest) = .error e) (s : Pending) :
    fillPart freeze f s c = .failed e awaitingLength (f.taken c.rest) := by
  have hc : complete f s c = .ready (f.fill c.rest) awaitingLength (f.taken c.rest) := by
    simp only [complete, h, if_true]
  rw [fillPart, bind_of_ready _ hc, hclose]
  rfl

theorem fillPart_of_not_isComplete (h : ¬(f.fill c.rest).isComplete = true) (s : Pending) :
    fillPart freeze f s c = .paused (filling (f.fill c.rest)) (f.taken c.rest) := by
  have hc : complete f s c = .paused (filling (f.fill c.rest)) (f.taken c.rest) := by
    simp only [complete, if_neg h]
  rw [fillPart, bind_of_paused _ hc]

end FillPart

section Builder
variable (freeze : List UInt8 → Except Error α) (maxLength : UInt32)

theorem builder_filling (f : ByteField) (c : Cursor) :
    builder freeze maxLength (filling f) c = fillPart freeze f (filling f) c := by
  have hc : field maxLength (filling f) c = .ready f (filling f) 0 := rfl
  rw [builder_eq, bind_of_ready _ hc, Cursor.drop_zero, Pass.after_zero]

theorem builder_awaitingLength (c : Cursor) :
    builder freeze maxLength awaitingLength c = match Reader.u32 c with
      | .done length n =>
        if maxLength < length then
          .failed (.limitExceeded "field length" maxLength.toNat c.offset) awaitingLength n
        else
          (fillPart freeze (.ofLength length.toNat) (filling (.ofLength length.toNat))
            (c.drop n)).after n
      | .needMore => .paused awaitingLength 0
      | .fail e => .failed e awaitingLength 0 := by
  rw [builder_eq]
  have hfield : field maxLength awaitingLength c = match Reader.u32 c with
      | .done length n =>
        if maxLength < length then
          .failed (.limitExceeded "field length" maxLength.toNat c.offset) awaitingLength n
        else .ready (.ofLength length.toNat) (filling (.ofLength length.toNat)) n
      | .needMore => .paused awaitingLength 0
      | .fail e => .failed e awaitingLength 0 := by
    simp only [field, Builder.bind_run, Builder.get, Builder.offset, Builder.read, Cursor.drop_zero,
      Pass.after_zero]
    cases hc : Reader.u32 c with
    | done length n =>
      by_cases hl : maxLength < length
      · simp only [if_pos hl]
        rfl
      · simp only [if_neg hl]
        rfl
    | needMore => rfl
    | fail e => rfl
  cases hc : Reader.u32 c with
  | done length n =>
    rw [hc] at hfield
    by_cases hl : maxLength < length
    · simp only [if_pos hl] at hfield ⊢
      exact bind_of_failed _ hfield
    · simp only [if_neg hl] at hfield ⊢
      exact bind_of_ready _ hfield
  | needMore =>
    rw [hc] at hfield
    exact bind_of_paused _ hfield
  | fail e =>
    rw [hc] at hfield
    exact bind_of_failed _ hfield

/-- Filling goes on in the builder's own state. -/
theorem fillPart_resume (f : ByteField) (s : Pending) (c : Cursor) (more : List UInt8) :
    (fillPart freeze f s c).used ≤ c.rest.length ∧
      fillPart freeze f s (c.append more) =
        (builder freeze maxLength).resume c more (fillPart freeze f s c) := by
  by_cases h : (f.fill c.rest).isComplete = true
  · obtain ⟨hfill, htaken⟩ := ByteField.fill_append_of_isComplete h more
    have h' : (f.fill (c.append more).rest).isComplete = true := by
      rwa [Cursor.append_rest, hfill]
    cases hclose : close freeze (f.fill c.rest) with
    | ok a =>
      have hclose' : close freeze (f.fill (c.append more).rest) = .ok a := by
        rwa [Cursor.append_rest, hfill]
      rw [fillPart_of_ok h hclose, fillPart_of_ok h' hclose', Cursor.append_rest, htaken]
      exact ⟨ByteField.taken_le f c.rest, rfl⟩
    | error e =>
      have hclose' : close freeze (f.fill (c.append more).rest) = .error e := by
        rwa [Cursor.append_rest, hfill]
      rw [fillPart_of_error h hclose, fillPart_of_error h' hclose', Cursor.append_rest, htaken]
      exact ⟨ByteField.taken_le f c.rest, rfl⟩
  · obtain ⟨hall, htaken⟩ := ByteField.taken_append_of_not_isComplete h more
    have hrest : ((c.drop (f.taken c.rest)).append more).rest = more := by simp [hall]
    have hfill : f.fill (c.append more).rest = (f.fill c.rest).fill more := by
      rw [Cursor.append_rest, ByteField.fill_append]
    rw [fillPart_of_not_isComplete h]
    refine ⟨ByteField.taken_le f c.rest, ?_⟩
    rw [resume_paused, builder_filling]
    by_cases h' : ((f.fill c.rest).fill more).isComplete = true
    · cases hclose : close freeze ((f.fill c.rest).fill more) with
      | ok a =>
        rw [fillPart_of_ok (by rwa [hfill]) (by rwa [hfill]),
          fillPart_of_ok (by rwa [hrest]) (by rwa [hrest]), hrest, Cursor.append_rest, htaken,
          Pass.after_ready, hall]
      | error e =>
        rw [fillPart_of_error (by rwa [hfill]) (by rwa [hfill]),
          fillPart_of_error (by rwa [hrest]) (by rwa [hrest]), hrest, Cursor.append_rest, htaken,
          Pass.after_failed, hall]
    · rw [fillPart_of_not_isComplete (by rwa [hfill]), fillPart_of_not_isComplete (by rwa [hrest]),
        hrest, hfill, Cursor.append_rest, htaken, Pass.after_paused, hall]

theorem resumable_builder : Resumable (builder freeze maxLength) := by
  intro s c
  cases s with
  | filling f =>
    rw [builder_filling]
    refine ⟨(fillPart_resume freeze maxLength f (filling f) c []).1, fun more => ?_⟩
    rw [builder_filling]
    exact (fillPart_resume freeze maxLength f (filling f) c more).2
  | awaitingLength =>
    rw [builder_awaitingLength]
    cases hc : Reader.u32 c with
    | done length n =>
      obtain ⟨hn, hmore⟩ := Reader.stable_u32.done hc
      by_cases hl : maxLength < length
      · simp only [if_pos hl]
        refine ⟨hn, fun more => ?_⟩
        rw [builder_awaitingLength, hmore more]
        simp only [if_pos hl, Cursor.append_offset, resume_failed]
      · simp only [if_neg hl]
        have hfill := fillPart_resume freeze maxLength (.ofLength length.toNat)
          (filling (.ofLength length.toNat)) (c.drop n)
        refine ⟨?_, fun more => ?_⟩
        · have hle := (hfill []).1
          simp only [Cursor.drop_rest, List.length_drop] at hle
          rw [Pass.used_after]
          omega
        · rw [builder_awaitingLength, hmore more]
          simp only [if_neg hl]
          rw [Cursor.drop_append hn, (hfill more).2, resume_after]
    | needMore =>
      refine ⟨Nat.zero_le _, fun more => ?_⟩
      rw [resume_paused, Cursor.drop_zero, Pass.after_zero]
    | fail e =>
      refine ⟨Nat.zero_le _, fun more => ?_⟩
      rw [builder_awaitingLength, Reader.stable_u32.fail hc more, resume_failed]

end Builder
end Pending

theorem Builder.idle_harvested {σ α : Type} (freeze : σ → Except Error α) (fresh : σ) :
    Idle (get >>= fun full => modify (fun _ => fresh) >>= fun _ => lift (freeze full)) :=
  idle_get.bind fun full => (idle_modify _).bind fun _ => idle_lift (freeze full)

theorem Builder.Resumable.harvest {σ α : Type} {p : Builder σ Unit} (hp : Resumable p)
    (freeze : σ → Except Error α) (fresh : σ) : Resumable (harvest p freeze fresh) :=
  hp.bind_idle fun _ => idle_harvested freeze fresh

section Filled
variable {σ α : Type} {part : σ → ByteField} {put : ByteField → σ → σ} {clear : σ → σ}
  {g : σ → Except Error α}

/-- Fill a field; as soon as it is complete, make a value of it and empty it. -/
def whenFilled (part : σ → ByteField) (put : ByteField → σ → σ) (clear : σ → σ)
    (g : σ → Except Error α) : Builder σ α := do
  zoom part put ByteField.builder
  let s ← get
  modify clear
  lift (g s)

theorem keeps_whenFilled {τ : Type} {field : σ → τ} (hput : ∀ f s, field (put f s) = field s)
    (hclear : ∀ s, field (clear s) = field s) : Keeps (whenFilled part put clear g) field :=
  Keeps.bind (keeps_zoom _ hput) fun _ => Keeps.bind keeps_get fun _ =>
    Keeps.bind (keeps_modify hclear) fun _ => keeps_lift _

end Filled

section Entries
variable (limits : DecoderLimits)

theorem GlobalBuilder.resumable_builder : Resumable (builder limits) := by
  refine Resumable.remember_bind (resumable_read GlobalType.stable_reader) (keeps_read _)
    (fun _ _ => rfl) (fun _ => ?_) fun _ => ?_
  · exact Resumable.bind_idle (Resumable.remember (resumable_read (Expression.stable_reader limits))
      (keeps_read _)) fun _ => idle_pure ()
  · exact Keeps.bind (Keeps.remember (keeps_read _) fun _ _ => rfl) fun _ => keeps_pure ()

/-- A field of a builder that is written with its length. -/
theorem resumable_pendingField {σ α : Type} {part : σ → Pending} {put : Pending → σ → σ}
    (freeze : List UInt8 → Except Error α) (hget : ∀ t s, part (put t s) = t)
    (hput : ∀ t t' s, put t' (put t s) = put t' s) :
    Resumable (zoom part put (Pending.builder freeze limits.maxPayloadSize)) :=
  (Pending.resumable_builder freeze limits.maxPayloadSize).zoom hget hput

theorem DataBuilder.resumable_readFlags : Resumable readFlags :=
  resumable_offset_read Reader.stable_u32 fun _ flags =>
    Idle.ite (Idle.bind (idle_fail _) fun _ => idle_pure flags) (idle_pure flags)

theorem DataBuilder.keeps_readFlags {τ : Type} (part : DataBuilder → τ) : Keeps readFlags part :=
  Keeps.bind keeps_offset fun _ => Keeps.bind (keeps_read _) fun flags =>
    Keeps.ite (Keeps.bind (keeps_fail _) fun _ => keeps_pure flags) (keeps_pure flags)

theorem DataBuilder.resumable_builder : Resumable (builder limits) := by
  refine Resumable.remember_bind resumable_readFlags (keeps_readFlags _) (fun _ _ => rfl)
    (fun flags => ?_) fun flags => ?_
  · refine Resumable.remember_bind
      (Resumable.ite (resumable_read Reader.stable_u32) (idle_pure 0).resumable)
      (Keeps.ite (keeps_read _) (keeps_pure 0)) (fun _ _ => rfl) (fun memoryIndex => ?_)
      fun memoryIndex => ?_
    · refine Resumable.remember_bind
        (Resumable.ite (idle_pure []).resumable (resumable_read (Expression.stable_reader limits)))
        (Keeps.ite (keeps_pure []) (keeps_read _)) (fun _ _ => rfl) (fun offset => ?_)
        fun offset => ?_
      · exact Resumable.bind_idle (Resumable.remember
          (resumable_pendingField limits .ok (fun _ _ => rfl) fun _ _ _ => rfl)
          (keeps_zoom _ fun _ _ => rfl)) fun _ => idle_pure ()
      · exact Keeps.bind (Keeps.remember (keeps_zoom _ fun _ _ => rfl) fun _ _ => rfl) fun _ =>
          keeps_pure ()
    · exact Keeps.bind (Keeps.remember (Keeps.ite (keeps_pure []) (keeps_read _)) fun _ _ => rfl)
        fun _ => Keeps.bind (Keeps.remember (keeps_zoom _ fun _ _ => rfl) fun _ _ => rfl) fun _ =>
          keeps_pure ()
  · exact Keeps.bind (Keeps.remember (Keeps.ite (keeps_read _) (keeps_pure 0)) fun _ _ => rfl)
      fun _ => Keeps.bind (Keeps.remember (Keeps.ite (keeps_pure []) (keeps_read _)) fun _ _ => rfl)
        fun _ => Keeps.bind (Keeps.remember (keeps_zoom _ fun _ _ => rfl) fun _ _ => rfl) fun _ =>
          keeps_pure ()

theorem ImportBuilder.resumable_builder : Resumable (builder limits) := by
  refine Resumable.remember_bind
    (resumable_pendingField limits readName (fun _ _ => rfl) fun _ _ _ => rfl)
    (keeps_zoom _ fun _ _ => rfl) (fun _ _ => rfl) (fun _ => ?_) fun _ => ?_
  · refine Resumable.remember_bind
      (resumable_pendingField limits readName (fun _ _ => rfl) fun _ _ _ => rfl)
      (keeps_zoom _ fun _ _ => rfl) (fun _ _ => rfl) (fun _ => ?_) fun _ => ?_
    · exact Resumable.bind_idle (Resumable.remember (resumable_read ImportDesc.stable_reader)
        (keeps_read _)) fun _ => idle_pure ()
    · exact Keeps.bind (Keeps.remember (keeps_read _) fun _ _ => rfl) fun _ => keeps_pure ()
  · exact Keeps.bind (Keeps.remember (keeps_zoom _ fun _ _ => rfl) fun _ _ => rfl) fun _ =>
      Keeps.bind (Keeps.remember (keeps_read _) fun _ _ => rfl) fun _ => keeps_pure ()

theorem ExportBuilder.resumable_builder : Resumable (builder limits) := by
  refine Resumable.remember_bind
    (resumable_pendingField limits readName (fun _ _ => rfl) fun _ _ _ => rfl)
    (keeps_zoom _ fun _ _ => rfl) (fun _ _ => rfl) (fun _ => ?_) fun _ => ?_
  · exact Resumable.bind_idle (Resumable.remember (resumable_read Export.stable_targetReader)
      (keeps_read _)) fun _ => idle_pure ()
  · exact Keeps.bind (Keeps.remember (keeps_read _) fun _ _ => rfl) fun _ => keeps_pure ()

theorem CustomBuilder.resumable_readHead (sectionEnd : Nat) :
    Resumable (readHead limits sectionEnd) := by
  refine Resumable.bind_idle
    (resumable_pendingField limits readName (fun _ _ => rfl) fun _ _ _ => rfl) fun name => ?_
  refine Idle.bind idle_offset fun start => ?_
  dsimp only
  have hput : Idle (do
      Builder.modify fun b => { b with payload := .ofLength (sectionEnd - start) }
      return name : Builder CustomBuilder String) :=
    Idle.bind (idle_modify _) fun _ => idle_pure name
  exact Idle.ite
    (Idle.bind (idle_fail _) fun _ => Idle.ite (Idle.bind (idle_fail _) fun _ => hput) hput)
    (Idle.ite (Idle.bind (idle_fail _) fun _ => hput) hput)

/-- The name and the payload that is to come are all that is put into the state. -/
theorem CustomBuilder.keeps_part_readHead {τ : Type} {part : CustomBuilder → τ} (sectionEnd : Nat)
    (hname : ∀ p b, part { b with nameField := p } = part b)
    (hpayload : ∀ f b, part { b with payload := f } = part b) :
    Keeps (readHead limits sectionEnd) part := by
  refine Keeps.bind (keeps_zoom _ hname) fun name => Keeps.bind keeps_offset fun start => ?_
  dsimp only
  have hput : Keeps (do
      Builder.modify fun b => { b with payload := .ofLength (sectionEnd - start) }
      return name : Builder CustomBuilder String) part :=
    Keeps.bind (keeps_modify fun _ => hpayload _ _) fun _ => keeps_pure name
  exact Keeps.ite
    (Keeps.bind (keeps_fail _) fun _ => Keeps.ite (Keeps.bind (keeps_fail _) fun _ => hput) hput)
    (Keeps.ite (Keeps.bind (keeps_fail _) fun _ => hput) hput)

theorem CustomBuilder.keeps_readHead (sectionEnd : Nat) : Keeps (readHead limits sectionEnd) name :=
  keeps_part_readHead limits sectionEnd (fun _ _ => rfl) fun _ _ => rfl

theorem CustomBuilder.resumable_builder (sectionEnd : Nat) :
    Resumable (builder limits sectionEnd) := by
  refine Resumable.remember_bind (resumable_readHead limits sectionEnd)
    (keeps_readHead limits sectionEnd) (fun _ _ => rfl) (fun _ => ?_) fun _ => ?_
  · refine Resumable.bind_idle (Resumable.remember (Resumable.bind_idle
      (ByteField.resumable_builder.zoom (fun _ _ => rfl) fun _ _ _ => rfl) fun _ => ?_) ?_) fun _ =>
        idle_pure ()
    · exact Idle.bind idle_get fun b => Idle.bind (idle_modify _) fun _ => idle_lift _
    · exact keeps_whenFilled (fun _ _ => rfl) fun _ => rfl
  · exact Keeps.bind (Keeps.remember (keeps_whenFilled (fun _ _ => rfl) fun _ => rfl) fun _ _ => rfl)
      fun _ => keeps_pure ()

/-- The size of a body that has not been read, and the place for its bytes. -/
def CodeBuilder.freshSize : Builder CodeBuilder UInt32 := do
  let start ← Builder.offset
  let size ← Builder.read Reader.u32
  if limits.maxPayloadSize < size then
    Builder.fail (.limitExceeded "code body size" limits.maxPayloadSize.toNat start)
  let bodyOffset ← Builder.offset
  Builder.modify fun b => { b with bodyOffset := bodyOffset, body := .ofLength size.toNat }
  return size

theorem CodeBuilder.readSize_eq : readSize limits =
    remember size (fun n b => { b with size := some n }) (freshSize limits) := by
  funext s c
  cases hs : s.size with
  | some n => 
    rw [remember_of_some hs]
    simp only [readSize, bind_run, Builder.get, hs, pure_run, Pass.after]
  | none =>
    rw [remember_of_none hs]
    simp only [readSize, freshSize, bind_run, Builder.get, hs, Builder.offset, Builder.read,
      Cursor.drop_zero, Pass.after_zero]
    cases hc : Reader.u32 c with
    | done n k =>
      by_cases hn : limits.maxPayloadSize < n
      · simp only [if_pos hn]
        rfl
      · simp only [if_neg hn]
        rfl
    | needMore => rfl
    | fail e => rfl

theorem CodeBuilder.resumable_freshSize : Resumable (freshSize limits) := by
  refine resumable_offset_read Reader.stable_u32 fun start n => ?_
  have hput : Idle (do
      let bodyOffset ← Builder.offset
      Builder.modify fun b => { b with bodyOffset := bodyOffset, body := .ofLength n.toNat }
      return n : Builder CodeBuilder UInt32) :=
    Idle.bind idle_offset fun _ => Idle.bind (idle_modify _) fun _ => idle_pure n
  exact Idle.ite (Idle.bind (idle_fail _) fun _ => hput) hput

theorem CodeBuilder.keeps_freshSize : Keeps (freshSize limits) size := by
  refine Keeps.bind keeps_offset fun start => Keeps.bind (keeps_read _) fun n => ?_
  have hput : Keeps (do
      let bodyOffset ← Builder.offset
      Builder.modify fun b => { b with bodyOffset := bodyOffset, body := .ofLength n.toNat }
      return n : Builder CodeBuilder UInt32) size :=
    Keeps.bind keeps_offset fun _ => Keeps.bind (keeps_modify fun _ => rfl) fun _ => keeps_pure n
  exact Keeps.ite (Keeps.bind (keeps_fail _) fun _ => hput) hput

theorem CodeBuilder.resumable_builder : Resumable (builder limits) := by
  unfold builder
  rw [readSize_eq]
  refine Resumable.remember_bind (resumable_freshSize limits) (keeps_freshSize limits)
    (fun _ _ => rfl) (fun n => ?_) fun n => ?_
  · refine Resumable.bind_idle (Resumable.remember (Resumable.bind_idle
      (ByteField.resumable_builder.zoom (fun _ _ => rfl) fun _ _ _ => rfl) fun _ => ?_) ?_) fun _ =>
        idle_pure ()
    · exact Idle.bind idle_get fun b => Idle.bind (idle_modify _) fun _ => idle_lift _
    · exact keeps_whenFilled (fun _ _ => rfl) fun _ => rfl
  · exact Keeps.bind (Keeps.remember (keeps_whenFilled (fun _ _ => rfl) fun _ => rfl) fun _ _ => rfl)
      fun _ => keeps_pure ()

end Entries

namespace EntryBuilder
variable (limits : DecoderLimits)

theorem resumable_parts {σ α : Type} {p : Builder σ α} (hp : Resumable p) (entry : α → Entry) :
    Resumable (builder.parts entry p) := hp.bind_idle fun _ => idle_pure _

/-- A builder inside another: what it resumes from is what the outer one resumes from. -/
theorem resumesFrom_inside {σ τ α : Type} {inside : σ → τ} {p : Builder σ α} {q : Builder τ α}
    (hp : Resumable p) (hq : ∀ s c, q (inside s) c = (p s c).mapState inside) (s : σ) :
    ResumesFrom q (inside s) := by
  intro c
  obtain ⟨hle, hmore⟩ := hp s c
  rw [hq]
  refine ⟨by rwa [Pass.used_mapState], fun more => ?_⟩
  rw [hq, hmore more]
  cases hc : p s c with
  | ready a t n => rfl
  | paused t n =>
    rw [resume_paused, Pass.mapState_after, Pass.mapState_paused, resume_paused, hq]
  | failed e t n => rfl

/-- An entry that is read at once leaves the state as it is. -/
theorem resumesFrom_whole {α : Type} {r : Reader α} (hr : r.Stable) {entry : α → Entry}
    {q : Builder EntryBuilder Entry} {s : EntryBuilder} (hq : ∀ c, q s c = whole r entry s c) :
    ResumesFrom q s := by
  intro c
  obtain ⟨hle, hmore⟩ := ((resumable_read hr).bind_idle fun a => idle_pure (entry a)) s c
  have hkeep : Keeps (whole r entry) id := Keeps.bind (keeps_read r) fun a => keeps_pure (entry a)
  have hstate := hkeep s c
  rw [hq]
  refine ⟨hle, fun more => ?_⟩
  rw [hq]
  refine (hmore more).trans ?_
  change (whole r entry).resume c more (whole r entry s c) = _
  cases hc : whole r entry s c with
  | ready a t n => rfl
  | paused t n =>
    rw [hc] at hstate
    obtain rfl : t = s := hstate
    rw [resume_paused, resume_paused, hq]
  | failed e t n => rfl

theorem resumable_builder : Resumable (builder limits) := fun entry => by
  cases entry with
  | type => exact resumesFrom_whole FuncType.stable_reader fun _ => rfl
  | function => exact resumesFrom_whole Reader.stable_u32 fun _ => rfl
  | table => exact resumesFrom_whole TableType.stable_reader fun _ => rfl
  | memory => exact resumesFrom_whole Limits.stable_reader fun _ => rfl
  | imports entry =>
    exact resumesFrom_inside (resumable_parts
      ((ImportBuilder.resumable_builder limits).harvest _ _) _) (fun _ _ => rfl) entry
  | global entry =>
    exact resumesFrom_inside (resumable_parts
      ((GlobalBuilder.resumable_builder limits).harvest _ _) _) (fun _ _ => rfl) entry
  | exports entry =>
    exact resumesFrom_inside (resumable_parts
      ((ExportBuilder.resumable_builder limits).harvest _ _) _) (fun _ _ => rfl) entry
  | code entry =>
    exact resumesFrom_inside (resumable_parts
      ((CodeBuilder.resumable_builder limits).harvest _ _) _) (fun _ _ => rfl) entry
  | data entry =>
    exact resumesFrom_inside (resumable_parts
      ((DataBuilder.resumable_builder limits).harvest _ _) _) (fun _ _ => rfl) entry

end EntryBuilder
end WasmStream
