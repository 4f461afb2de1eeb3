import WasmStream.Proofs.Relocation.Readers
import WasmStream.Proofs.Grammar.Code

/-! Builders at another place. A pass over the same bytes ends in the same way wherever they stand, and
leaves the same state behind, but for the offset that the builder of a code body remembers. That all
errors are parse errors says more here: no builder freezes what is not complete. -/
namespace WasmStream

/-- The same value, or parse errors with one code. -/
inductive AlikeResult {α : Type} : Except Error α → Except Error α → Prop
  | ok (a : α) : AlikeResult (.ok a) (.ok a)
  | error {e e' : Error} (h : e.Alike e') : AlikeResult (.error e) (.error e')

namespace Pass
variable {σ α : Type}

/-- The same end, after the same number of bytes, in states that are related by `R`. -/
inductive Alike (R : σ → σ → Prop) : Pass σ α → Pass σ α → Prop
  | ready (a : α) {s s' : σ} (n : Nat) (h : R s s') : Alike R (ready a s n) (ready a s' n)
  | paused {s s' : σ} (n : Nat) (h : R s s') : Alike R (paused s n) (paused s' n)
  | failed {e e' : Error} {s s' : σ} (n : Nat) (he : e.Alike e') (h : R s s') :
      Alike R (failed e s n) (failed e' s' n)

@[simp] theorem mapState_id (p : Pass σ α) : p.mapState id = p := by cases p <;> rfl

variable {R : σ → σ → Prop} {p p' : Pass σ α}

theorem Alike.after (h : p.Alike R p') (n : Nat) : (p.after n).Alike R (p'.after n) := by
  cases h with
  | ready a m h => exact .ready a (n + m) h
  | paused m h => exact .paused (n + m) h
  | failed m he h => exact .failed (n + m) he h

theorem Alike.mapState {τ : Type} {Q : τ → τ → Prop} {f f' : σ → τ} (h : p.Alike R p')
    (hf : ∀ s s', R s s' → Q (f s) (f' s')) : (p.mapState f).Alike Q (p'.mapState f') := by
  cases h with
  | ready a n h => exact .ready a n (hf _ _ h)
  | paused n h => exact .paused n (hf _ _ h)
  | failed n he h => exact .failed n he (hf _ _ h)

end Pass

namespace Builder
variable {σ τ α β : Type} {k : Nat} {R : σ → σ → Prop} {p p' : Builder σ α}

/-- What `p` builds somewhere, `p'` builds `k` bytes further back. -/
def Alike (k : Nat) (R : σ → σ → Prop) (p p' : Builder σ α) : Prop :=
  ∀ (s s' : σ) (c : Cursor), R s s' → (p s c).Alike R (p' s' (c.moved k))

theorem alike_pure (a : α) : Alike k R (pure a) (pure a) := fun _ _ _ h => .ready a 0 h

theorem alike_fail {e e' : Error} (he : e.Alike e') :
    Alike k R (fail e : Builder σ α) (fail e') := fun _ _ _ h => .failed 0 he h

theorem alike_modify {f f' : σ → σ} (hf : ∀ s s', R s s' → R (f s) (f' s')) :
    Alike k R (modify f) (modify f') := fun s s' _ h => .ready () 0 (hf s s' h)

theorem alike_lift {x x' : Except Error α} (h : AlikeResult x x') :
    Alike k R (lift x) (lift x') := by
  cases h with
  | ok a => exact alike_pure a
  | error he => exact alike_fail he

theorem alike_read {r r' : Reader α} (hr : r.Alike k r') : Alike k R (read r) (read r') := by
  intro s s' c h
  have hc := hr c
  unfold read
  generalize r c = o at hc ⊢
  generalize r' (c.moved k) = o' at hc ⊢
  cases hc with
  | done a n => exact .ready a n h
  | needMore => exact .paused 0 h
  | fail he => exact .failed 0 he h

/-- The second builder may make use of how the first one came to be ready. -/
theorem alike_bind_at {f f' : α → Builder σ β} {s s' : σ} {c : Cursor}
    (h : (p s c).Alike R (p' s' (c.moved k)))
    (hf : ∀ a t t' n, p s c = .ready a t n → R t t' →
      (f a t (c.drop n)).Alike R (f' a t' ((c.drop n).moved k))) :
    ((p >>= f) s c).Alike R ((p' >>= f') s' (c.moved k)) := by
  rw [bind_run, bind_run]
  generalize p s c = o at h hf ⊢
  generalize p' s' (c.moved k) = o' at h ⊢
  cases h with
  | ready a n h =>
    have hrest := hf a _ _ n rfl h
    rw [← Cursor.drop_moved] at hrest
    exact hrest.after n
  | paused n h => exact .paused n h
  | failed n he h => exact .failed n he h

theorem Alike.bind {f f' : α → Builder σ β} (hp : Alike k R p p')
    (hf : ∀ a, Alike k R (f a) (f' a)) : Alike k R (p >>= f) (p' >>= f') :=
  fun s s' c h => alike_bind_at (hp s s' c h) fun a t t' n _ ht => hf a t t' (c.drop n) ht

theorem alike_offset_bind {f f' : Nat → Builder σ β}
    (hf : ∀ start, Alike k R (f start) (f' (start + k))) :
    Alike k R (offset >>= f) (offset >>= f') :=
  fun s s' c h => (hf c.offset s s' c h).after 0

theorem alike_get_bind {f f' : σ → Builder σ β}
    (hf : ∀ s s', R s s' → Alike k R (f s) (f' s')) : Alike k R (get >>= f) (get >>= f') :=
  fun s s' c h => (hf s s' h s s' c h).after 0

theorem Alike.ite {q q' : Builder σ α} {b : Prop} [Decidable b] (hp : Alike k R p p')
    (hq : Alike k R q q') : Alike k R (if b then p else q) (if b then p' else q') := by
  by_cases h : b
  · simpa only [if_pos h] using hp
  · simpa only [if_neg h] using hq

theorem Alike.zoom {part : σ → τ} {put : τ → σ → σ} {p p' : Builder τ α}
    (hp : Alike k Eq p p') (hpart : ∀ s s', R s s' → part s = part s')
    (hput : ∀ t s s', R s s' → R (put t s) (put t s')) :
    Alike k R (zoom part put p) (zoom part put p') := by
  intro s s' c h
  rw [zoom_run, zoom_run]
  apply (hp (part s) (part s') c (hpart s s' h)).mapState
  intro t t' ht
  rw [ht]
  exact hput t' s s' h

theorem Alike.remember {field : σ → Option α} {put : α → σ → σ} (hp : Alike k R p p')
    (hfield : ∀ s s', R s s' → field s = field s')
    (hput : ∀ a s s', R s s' → R (put a s) (put a s')) :
    Alike k R (remember field put p) (remember field put p') := by
  intro s s' c h
  have hsame := hfield s s' h
  cases hs : field s with
  | some a =>
    rw [remember_of_some hs, remember_of_some (hsame.symm.trans hs)]
    exact .ready a 0 h
  | none =>
    rw [remember_of_none hs, remember_of_none (hsame.symm.trans hs)]
    have hkept (a : α) : Alike k R (modify (put a) >>= fun _ => pure a)
        (modify (put a) >>= fun _ => pure a) :=
      (alike_modify (hput a)).bind fun _ => alike_pure a
    exact hp.bind hkept s s' c h

theorem bind_eq_ready {f : α → Builder σ β} {s t : σ} {c : Cursor} {b : β} {n : Nat}
    (h : (p >>= f) s c = .ready b t n) :
    ∃ a u m l, p s c = .ready a u m ∧ f a u (c.drop m) = .ready b t l := by
  cases hp : p s c with
  | ready a u m =>
    rw [bind_of_ready f hp] at h
    cases hf : f a u (c.drop m) with
    | ready b' t' l =>
      rw [hf] at h
      cases h
      exact ⟨a, u, m, l, rfl, hf⟩
    | paused t' l => rw [hf] at h; cases h
    | failed e t' l => rw [hf] at h; cases h
  | paused u m => rw [bind_of_paused f hp] at h; cases h
  | failed e u m => rw [bind_of_failed f hp] at h; cases h

/-- A builder that is ready has filled the field. -/
structure Fills (p : Builder σ α) (field : σ → Option β) : Prop where
  stored : ∀ {s c a t n}, p s c = .ready a t n → ∃ b, field t = some b

/-- What stands behind a remembered field leaves it as it is. -/
theorem fills_remember {field : σ → Option α} {put : α → σ → σ} {f : α → Builder σ β}
    (hput : ∀ a s, field (put a s) = some a) (hf : ∀ a, Keeps (f a) field) :
    Fills (remember field put p >>= f) field where
  stored {s c b t n} h := by
    obtain ⟨a, u, m, l, hready, hrest⟩ := bind_eq_ready h
    have hstored := remember_stored hput hready
    have hkeep := hf a u (c.drop m)
    rw [hrest] at hkeep
    exact ⟨a, hkeep.trans hstored⟩

theorem Fills.behind {γ : Type} {field : σ → Option γ} {f : α → Builder σ β}
    (hf : ∀ a, Fills (f a) field) : Fills (p >>= f) field where
  stored {s c b t n} h := by
    obtain ⟨a, u, m, l, -, hrest⟩ := bind_eq_ready h
    exact (hf a).stored hrest

/-- What is ready can be frozen, so that freezing adds no error. -/
theorem Alike.harvest {p p' : Builder σ Unit} {freeze : σ → Except Error α} {fresh : σ}
    (hp : Alike k R p p') (hfresh : R fresh fresh)
    (hfreeze : ∀ s s', R s s' → freeze s = freeze s')
    (hcomplete : ∀ {s c t n}, p s c = .ready () t n → ∃ a, freeze t = .ok a) :
    Alike k R (harvest p freeze fresh) (harvest p' freeze fresh) := by
  intro s s' c h
  apply alike_bind_at (hp s s' c h)
  intro _ t t' n hready ht
  obtain ⟨a, ha⟩ := hcomplete hready
  have hfrozen (u : σ) (hu : freeze u = .ok a) (c' : Cursor) :
      (get >>= fun full => modify (fun _ => fresh) >>= fun _ => lift (freeze full)) u c' =
        .ready a fresh 0 := by
    change ((lift (freeze u) fresh ((c'.drop 0).drop 0)).after 0).after 0 = _
    rw [hu]
    rfl
  rw [hfrozen t ha, hfrozen t' ((hfreeze t t' ht).symm.trans ha)]
  exact .ready a 0 hfresh

end Builder
open Builder

section Fields
variable {k : Nat} {α : Type}

theorem ByteField.alike_builder : Alike k Eq ByteField.builder ByteField.builder := by
  intro f f' c h
  subst h
  by_cases h : (f.fill c.rest).isComplete = true
  · rw [builder_of_isComplete h, builder_of_isComplete (c := c.moved k) h]
    exact .ready () _ rfl
  · rw [builder_of_not_isComplete h, builder_of_not_isComplete (c := c.moved k) h]
    exact .paused _ rfl

/-- A complete field has all its bytes. -/
theorem ByteField.freeze_of_isComplete {f : ByteField} (h : f.isComplete = true) :
    f.freeze = .ok f.filled := by
  simp only [ByteField.freeze, if_pos h]

theorem Pending.close_of_isComplete (freeze : List UInt8 → Except Error α) {f : ByteField}
    (h : f.isComplete = true) : close freeze f = freeze f.filled := by
  rw [close, ByteField.freeze_of_isComplete h]
  rfl

/-- A field that is filled and then emptied; what is made of it is made of a complete field. -/
theorem alike_filled {σ : Type} {R : σ → σ → Prop} {part : σ → ByteField}
    {put : ByteField → σ → σ} {clear : σ → σ} {g g' : σ → Except Error α}
    (hpart : ∀ s s', R s s' → part s = part s') (hget : ∀ f s, part (put f s) = f)
    (hput : ∀ f s s', R s s' → R (put f s) (put f s'))
    (hclear : ∀ s s', R s s' → R (clear s) (clear s'))
    (hg : ∀ s s', R s s' → (part s).isComplete = true → AlikeResult (g s) (g' s')) :
    Alike k R
      (zoom part put ByteField.builder >>= fun _ => get >>= fun b => modify clear >>= fun _ =>
        lift (g b))
      (zoom part put ByteField.builder >>= fun _ => get >>= fun b => modify clear >>= fun _ =>
        lift (g' b)) := by
  intro s s' c h
  apply alike_bind_at (ByteField.alike_builder.zoom hpart hput s s' c h)
  intro _ t t' n hready ht
  have hcomplete : (part t).isComplete = true := by
    rw [zoom_run] at hready
    by_cases hfull : ((part s).fill c.rest).isComplete = true
    · rw [ByteField.builder_of_isComplete hfull] at hready
      cases hready
      rwa [hget]
    · rw [ByteField.builder_of_not_isComplete hfull] at hready
      cases hready
  have hlift := alike_lift (k := k) (R := R) (hg t t' ht hcomplete) (clear t) (clear t')
    (c.drop n) (hclear t t' ht)
  exact (hlift.after 0).after 0

theorem readName_error {bytes : List UInt8} {e : Error} (h : readName bytes = .error e) :
    e.category = .parse := by
  unfold readName at h
  cases hd : Utf8.decode bytes with
  | ok text => rw [hd] at h; cases h
  | error fault =>
    rw [hd] at h
    cases h
    rfl

theorem Pending.alike_fillPart {freeze : List UInt8 → Except Error α}
    (hfreeze : ∀ bytes e, freeze bytes = .error e → e.category = .parse) (f : ByteField) :
    Alike k Eq (fillPart freeze f) (fillPart freeze f) := by
  intro s s' c _
  by_cases h : (f.fill c.rest).isComplete = true
  · have hclose := close_of_isComplete freeze h
    cases hfrozen : freeze (f.fill c.rest).filled with
    | ok a =>
      rw [fillPart_of_ok h (hclose.trans hfrozen),
        fillPart_of_ok (c := c.moved k) h (hclose.trans hfrozen)]
      exact .ready a _ rfl
    | error e =>
      have he := hfreeze _ e hfrozen
      rw [fillPart_of_error h (hclose.trans hfrozen),
        fillPart_of_error (c := c.moved k) h (hclose.trans hfrozen)]
      exact .failed _ ⟨he, he, rfl⟩ rfl
  · rw [fillPart_of_not_isComplete h, fillPart_of_not_isComplete (c := c.moved k) h]
    exact .paused _ rfl

theorem Pending.alike_builder {freeze : List UInt8 → Except Error α}
    (hfreeze : ∀ bytes e, freeze bytes = .error e → e.category = .parse) (maxLength : UInt32) :
    Alike k Eq (Pending.builder freeze maxLength) (Pending.builder freeze maxLength) := by
  intro s s' c h
  subst h
  cases s with
  | filling f =>
    rw [builder_filling, builder_filling]
    exact alike_fillPart hfreeze f _ _ c rfl
  | awaitingLength =>
    rw [builder_awaitingLength, builder_awaitingLength]
    have hlength := Reader.alike_u32 (k := k) c
    generalize Reader.u32 c = o at hlength ⊢
    generalize Reader.u32 (c.moved k) = o' at hlength ⊢
    cases hlength with
    | done length n =>
      by_cases hl : maxLength < length
      · simp only [if_pos hl]
        exact .failed n ⟨rfl, rfl, rfl⟩ rfl
      · simp only [if_neg hl, Cursor.drop_moved]
        exact (alike_fillPart hfreeze _ _ _ (c.drop n) rfl).after n
    | needMore => exact .paused 0 rfl
    | fail he => exact .failed 0 he rfl

/-- A field that is written with its length, as a part of a state. -/
theorem alike_pendingField {σ : Type} {part : σ → Pending} {put : Pending → σ → σ}
    {freeze : List UInt8 → Except Error α}
    (hfreeze : ∀ bytes e, freeze bytes = .error e → e.category = .parse) (maxLength : UInt32) :
    Alike k Eq (zoom part put (Pending.builder freeze maxLength))
      (zoom part put (Pending.builder freeze maxLength)) := by
  apply (Pending.alike_builder hfreeze maxLength).zoom
  · intro s s' h
    rw [h]
  · intro t s s' h
    rw [h]

end Fields

section Entries
variable {k : Nat} (limits : DecoderLimits)

/-- A field that is decoded at most once, in states that are the same. -/
theorem alike_remember {σ α : Type} {field : σ → Option α} {put : α → σ → σ} {p : Builder σ α}
    (hp : Alike k Eq p p) : Alike k Eq (remember field put p) (remember field put p) := by
  apply hp.remember
  · intro s s' h
    rw [h]
  · intro a s s' h
    rw [h]

theorem GlobalBuilder.alike_builder : Alike k Eq (builder limits) (builder limits) := by
  apply (alike_remember (alike_read GlobalType.alike_reader)).bind
  intro type
  apply (alike_remember (alike_read (Expression.alike_reader limits))).bind
  intro init
  exact alike_pure ()

theorem GlobalBuilder.freeze_of_ready {s t : GlobalBuilder} {c : Cursor} {n : Nat}
    (h : builder limits s c = .ready () t n) : ∃ g, t.freeze = .ok g := by
  have htype : Fills (builder limits) GlobalBuilder.type :=
    fills_remember (fun _ _ => rfl) fun _ =>
      Keeps.bind (Keeps.remember (keeps_read _) fun _ _ => rfl) fun _ => keeps_pure ()
  have hinit : Fills (builder limits) GlobalBuilder.init :=
    Fills.behind fun _ => fills_remember (fun _ _ => rfl) fun _ => keeps_pure ()
  obtain ⟨type, htype⟩ := htype.stored h
  obtain ⟨init, hinit⟩ := hinit.stored h
  exact ⟨⟨type, init⟩, by simp only [freeze, htype, hinit]⟩

theorem DataBuilder.alike_readFlags : Alike k Eq readFlags readFlags := by
  apply alike_offset_bind
  intro start
  apply (alike_read Reader.alike_u32).bind
  intro flags
  have hrest : Alike k Eq (pure flags : Builder DataBuilder UInt32) (pure flags) := alike_pure flags
  apply Alike.ite
  · apply (alike_fail ?_).bind fun _ => hrest
    exact ⟨rfl, rfl, rfl⟩
  · exact hrest

theorem DataBuilder.alike_builder : Alike k Eq (builder limits) (builder limits) := by
  apply (alike_remember alike_readFlags).bind
  intro flags
  apply (alike_remember ((alike_read Reader.alike_u32).ite (alike_pure 0))).bind
  intro memoryIndex
  apply (alike_remember
    ((alike_pure []).ite (alike_read (Expression.alike_reader limits)))).bind
  intro offset
  apply (alike_remember (alike_pendingField (fun _ _ h => by cases h) limits.maxPayloadSize)).bind
  intro bytes
  exact alike_pure ()

theorem DataBuilder.freeze_of_ready {s t : DataBuilder} {c : Cursor} {n : Nat}
    (h : builder limits s c = .ready () t n) : ∃ d, t.freeze = .ok d := by
  have hbytes {τ : Type} (part : DataBuilder → τ)
      (hpart : ∀ p b, part { b with payload := p } = part b)
      (hput : ∀ p b, part { b with bytes := some p } = part b) :
      Keeps (Builder.remember bytes (fun p b => { b with bytes := some p })
        (zoom payload (fun p b => { b with payload := p })
          (Pending.builder .ok limits.maxPayloadSize)) >>= fun _ => pure ()) part :=
    Keeps.bind (Keeps.remember (keeps_zoom _ hpart) hput) fun _ => keeps_pure ()
  have hflags : Fills (builder limits) DataBuilder.flags :=
    fills_remember (fun _ _ => rfl) fun _ =>
      Keeps.bind (Keeps.remember (Keeps.ite (keeps_read _) (keeps_pure 0)) fun _ _ => rfl) fun _ =>
        Keeps.bind (Keeps.remember (Keeps.ite (keeps_pure []) (keeps_read _)) fun _ _ => rfl) fun _ =>
          hbytes _ (fun _ _ => rfl) fun _ _ => rfl
  have hmemoryIndex : Fills (builder limits) DataBuilder.memoryIndex :=
    Fills.behind fun _ => fills_remember (fun _ _ => rfl) fun _ =>
      Keeps.bind (Keeps.remember (Keeps.ite (keeps_pure []) (keeps_read _)) fun _ _ => rfl) fun _ =>
        hbytes _ (fun _ _ => rfl) fun _ _ => rfl
  have hoffset : Fills (builder limits) DataBuilder.offset :=
    Fills.behind fun _ => Fills.behind fun _ => fills_remember (fun _ _ => rfl) fun _ =>
      hbytes _ (fun _ _ => rfl) fun _ _ => rfl
  have hpayload : Fills (builder limits) DataBuilder.bytes :=
    Fills.behind fun _ => Fills.behind fun _ => Fills.behind fun _ =>
      fills_remember (fun _ _ => rfl) fun _ => keeps_pure ()
  obtain ⟨flags, hflags⟩ := hflags.stored h
  obtain ⟨memoryIndex, hmemoryIndex⟩ := hmemoryIndex.stored h
  obtain ⟨offset, hoffset⟩ := hoffset.stored h
  obtain ⟨bytes, hpayload⟩ := hpayload.stored h
  exact ⟨⟨memoryIndex, offset, bytes, flags == 1⟩, by
    simp only [freeze, hflags, hmemoryIndex, hoffset, hpayload]⟩

theorem ImportBuilder.alike_builder : Alike k Eq (builder limits) (builder limits) := by
  have hname {part : ImportBuilder → Pending} {put : Pending → ImportBuilder → ImportBuilder} :
      Alike k Eq (zoom part put (Pending.builder readName limits.maxPayloadSize))
        (zoom part put (Pending.builder readName limits.maxPayloadSize)) :=
    alike_pendingField (fun _ _ => readName_error) limits.maxPayloadSize
  apply (alike_remember hname).bind
  intro moduleName
  apply (alike_remember hname).bind
  intro name
  apply (alike_remember (alike_read ImportDesc.alike_reader)).bind
  intro desc
  exact alike_pure ()

theorem ImportBuilder.freeze_of_ready {s t : ImportBuilder} {c : Cursor} {n : Nat}
    (h : builder limits s c = .ready () t n) : ∃ i, t.freeze = .ok i := by
  have hmoduleName : Fills (builder limits) ImportBuilder.moduleName :=
    fills_remember (fun _ _ => rfl) fun _ =>
      Keeps.bind (Keeps.remember (keeps_zoom _ fun _ _ => rfl) fun _ _ => rfl) fun _ =>
        Keeps.bind (Keeps.remember (keeps_read _) fun _ _ => rfl) fun _ => keeps_pure ()
  have hname : Fills (builder limits) ImportBuilder.name :=
    Fills.behind fun _ => fills_remember (fun _ _ => rfl) fun _ =>
      Keeps.bind (Keeps.remember (keeps_read _) fun _ _ => rfl) fun _ => keeps_pure ()
  have hdesc : Fills (builder limits) ImportBuilder.desc :=
    Fills.behind fun _ => Fills.behind fun _ =>
      fills_remember (fun _ _ => rfl) fun _ => keeps_pure ()
  obtain ⟨moduleName, hmoduleName⟩ := hmoduleName.stored h
  obtain ⟨name, hname⟩ := hname.stored h
  obtain ⟨desc, hdesc⟩ := hdesc.stored h
  exact ⟨⟨moduleName, name, desc⟩, by simp only [freeze, hmoduleName, hname, hdesc]⟩

theorem ExportBuilder.alike_builder : Alike k Eq (builder limits) (builder limits) := by
  apply (alike_remember
    (alike_pendingField (fun _ _ => readName_error) limits.maxPayloadSize)).bind
  intro name
  apply (alike_remember (alike_read Export.alike_targetReader)).bind
  intro target
  exact alike_pure ()

theorem ExportBuilder.freeze_of_ready {s t : ExportBuilder} {c : Cursor} {n : Nat}
    (h : builder limits s c = .ready () t n) : ∃ e, t.freeze = .ok e := by
  have hname : Fills (builder limits) ExportBuilder.name :=
    fills_remember (fun _ _ => rfl) fun _ =>
      Keeps.bind (Keeps.remember (keeps_read _) fun _ _ => rfl) fun _ => keeps_pure ()
  have htarget : Fills (builder limits) ExportBuilder.target :=
    Fills.behind fun _ => fills_remember (fun _ _ => rfl) fun _ => keeps_pure ()
  obtain ⟨name, hname⟩ := hname.stored h
  obtain ⟨target, htarget⟩ := htarget.stored h
  exact ⟨⟨name, target.1, target.2⟩, by simp only [freeze, hname, htarget]⟩

end Entries

section Locals
variable {k : Nat} (limits : DecoderLimits)

theorem LocalsBuilder.alike_group : Alike k Eq (group limits) (group limits) := by
  have hgroup : Reader.Alike k groupReader groupReader :=
    Reader.alike_u32.bind fun _ => ValueType.alike_reader.bind fun _ => Reader.alike_pure _
  have hmodify (f : LocalsBuilder → LocalsBuilder) : Alike k Eq (modify f) (modify f) :=
    alike_modify fun s s' h => by rw [h]
  apply alike_offset_bind
  intro start
  apply (alike_read hgroup).bind
  intro g
  apply (hmodify _).bind
  intro _
  apply alike_get_bind
  intro b b' h
  subst h
  apply Alike.ite
  · apply (alike_fail ?_).bind fun _ => hmodify _
    exact ⟨rfl, rfl, rfl⟩
  · exact hmodify _

theorem LocalsBuilder.alike_groupsFrom (n : Nat) :
    Alike k Eq (groupsFrom limits n) (groupsFrom limits n) := by
  induction n with
  | zero => exact alike_pure ()
  | succ n ih => exact (alike_group limits).bind fun _ => ih

theorem LocalsBuilder.alike_builder : Alike k Eq (builder limits) (builder limits) := by
  apply (alike_remember (alike_read Reader.alike_u32)).bind
  intro count
  apply alike_get_bind
  intro b b' h
  subst h
  exact alike_groupsFrom limits _

/-- Locals that have been read are complete. -/
theorem LocalsBuilder.freeze_of_ready {b : LocalsBuilder} {c : Cursor} {n : Nat}
    (h : builder limits {} c = .ready () b n) : ∃ locals, b.freeze = .ok locals := by
  obtain ⟨-, groups, hgroups, -, hb⟩ := (reads_builder limits c _ _).mp (ready_iff.mp h)
  have hcomplete : b = complete groups := hb
  rw [hcomplete]
  exact ⟨_, freeze_complete hgroups.length_lt⟩

theorem CodeBody.alike_contents (size : UInt32) (c : Cursor) :
    AlikeResult (contents limits size c) (contents limits size (c.moved k)) := by
  have hlocals := LocalsBuilder.alike_builder (k := k) limits {} {} c rfl
  have hfreeze := fun b n => LocalsBuilder.freeze_of_ready (c := c) (b := b) (n := n) limits
  unfold contents
  generalize LocalsBuilder.builder limits {} c = o at hlocals hfreeze ⊢
  generalize LocalsBuilder.builder limits {} (c.moved k) = o' at hlocals ⊢
  cases hlocals with
  | @ready _ b b' n h =>
    subst h
    obtain ⟨locals, hlocals⟩ := hfreeze b n rfl
    have hbody := Expression.alike_reader (k := k) limits (c.drop n)
    simp only [hlocals, bind, Except.bind, Cursor.drop_moved]
    generalize Expression.reader limits (c.drop n) = q at hbody ⊢
    generalize Expression.reader limits ((c.drop n).moved k) = q' at hbody ⊢
    cases hbody with
    | done body m =>
      by_cases hleft : n + m < c.rest.length
      · have hleft' : n + m < (c.moved k).rest.length := hleft
        dsimp only
        rw [if_pos hleft, if_pos hleft']
        exact .error ⟨rfl, rfl, rfl⟩
      · have hleft' : ¬n + m < (c.moved k).rest.length := hleft
        dsimp only
        rw [if_neg hleft, if_neg hleft']
        exact .ok (locals, body)
    | needMore => exact .error ⟨rfl, rfl, rfl⟩
    | fail he => exact .error he
  | paused n h => exact .error ⟨rfl, rfl, rfl⟩
  | failed n he h => exact .error he

end Locals

namespace CodeBuilder
variable {k : Nat} (limits : DecoderLimits)

/-- The same progress in the same body, `k` bytes further back. -/
structure Moved (k : Nat) (b b' : CodeBuilder) : Prop where
  size : b.size = b'.size
  body : b.body = b'.body
  decoded : b.decoded = b'.decoded
  bodyOffset : b.size ≠ none → b'.bodyOffset = b.bodyOffset + k

/-- What is done with a body of a known size. -/
def bodyPart (size : UInt32) : Builder CodeBuilder (List ValueType × Expression) := do
  Builder.zoom body (fun f b => { b with body := f }) ByteField.builder
  let b ← Builder.get
  Builder.modify fun b => { b with body := .ofLength 0 }
  Builder.lift do CodeBody.contents limits size ⟨b.bodyOffset, ← b.body.freeze⟩

theorem builder_eq : builder limits = readSize limits >>= fun size =>
    Builder.remember decoded (fun d b => { b with decoded := some d }) (bodyPart limits size) >>=
      fun _ => pure () := rfl

theorem readSize_of_some {b : CodeBuilder} {size : UInt32} (h : b.size = some size) (c : Cursor) :
    readSize limits b c = .ready size b 0 := by
  rw [readSize_eq]
  exact remember_of_some h c

theorem readSize_of_none {b : CodeBuilder} (h : b.size = none) (c : Cursor) :
    readSize limits b c = match Reader.u32 c with
      | .done size n =>
        if limits.maxPayloadSize < size then
          .failed (.limitExceeded "code body size" limits.maxPayloadSize.toNat c.offset) b n
        else
          .ready size { b with size := some size, bodyOffset := c.offset + n,
                               body := .ofLength size.toNat } n
      | .needMore => .paused b 0
      | .fail e => .failed e b 0 := by
  simp only [readSize, bind_run, Builder.get, h, Builder.offset, Builder.read, Cursor.drop_zero,
    Pass.after_zero]
  cases hc : Reader.u32 c with
  | done size n =>
    by_cases hsize : limits.maxPayloadSize < size
    · simp only [if_pos hsize]
      rfl
    · simp only [if_neg hsize]
      rfl
  | needMore => rfl
  | fail e => rfl

theorem alike_readSize : Alike k (Moved k) (readSize limits) (readSize limits) := by
  intro b b' c h
  cases hs : b.size with
  | some size =>
    rw [readSize_of_some limits hs, readSize_of_some limits (h.size.symm.trans hs)]
    exact .ready size 0 h
  | none =>
    rw [readSize_of_none limits hs, readSize_of_none limits (h.size.symm.trans hs)]
    have hsize := Reader.alike_u32 (k := k) c
    generalize Reader.u32 c = o at hsize ⊢
    generalize Reader.u32 (c.moved k) = o' at hsize ⊢
    cases hsize with
    | done size n =>
      by_cases hl : limits.maxPayloadSize < size
      · simp only [if_pos hl]
        exact .failed n ⟨rfl, rfl, rfl⟩ h
      · simp only [if_neg hl]
        exact .ready size n ⟨rfl, rfl, h.decoded, fun _ => Nat.add_right_comm _ _ _⟩
    | needMore => exact .paused 0 h
    | fail he => exact .failed 0 he h

theorem size_of_readSize {b t : CodeBuilder} {c : Cursor} {size : UInt32} {n : Nat}
    (h : readSize limits b c = .ready size t n) : t.size = some size := by
  have hput (a : UInt32) (b : CodeBuilder) : { b with size := some a }.size = some a := rfl
  rw [readSize_eq] at h
  exact remember_stored hput h

/-- The same progress in a body whose size is known. -/
def MovedBody (k : Nat) (b b' : CodeBuilder) : Prop := Moved k b b' ∧ b.size ≠ none

theorem alike_bodyPart (size : UInt32) :
    Alike k (MovedBody k) (bodyPart limits size) (bodyPart limits size) := by
  apply alike_filled
  · exact fun b b' h => h.1.body
  · exact fun f b => rfl
  · exact fun f b b' h => ⟨⟨h.1.size, rfl, h.1.decoded, h.1.bodyOffset⟩, h.2⟩
  · exact fun b b' h => ⟨⟨h.1.size, rfl, h.1.decoded, h.1.bodyOffset⟩, h.2⟩
  · intro b b' h hcomplete
    have hfreeze : b.body.freeze = .ok b.body.filled := ByteField.freeze_of_isComplete hcomplete
    have hcontents := CodeBody.alike_contents (k := k) limits size ⟨b.bodyOffset, b.body.filled⟩
    rw [← h.1.body, h.1.bodyOffset h.2, hfreeze]
    exact hcontents

theorem alike_builder : Alike k (Moved k) (builder limits) (builder limits) := by
  intro b b' c h
  rw [builder_eq]
  apply alike_bind_at (alike_readSize limits b b' c h)
  intro size t t' n hready ht
  have hsize : t.size ≠ none := by
    rw [size_of_readSize limits hready]
    exact Option.some_ne_none size
  have hrest : Alike k (MovedBody k)
      (Builder.remember decoded (fun d b => { b with decoded := some d }) (bodyPart limits size) >>=
        fun _ => pure ())
      (Builder.remember decoded (fun d b => { b with decoded := some d }) (bodyPart limits size) >>=
        fun _ => pure ()) := by
    apply Alike.bind
    · apply (alike_bodyPart limits size).remember
      · exact fun b b' h => h.1.decoded
      · exact fun d b b' h => ⟨⟨h.1.size, h.1.body, rfl, h.1.bodyOffset⟩, h.2⟩
    · exact fun _ => alike_pure ()
  have hmoved (b b' : CodeBuilder) (h : MovedBody k b b') : Moved k (id b) (id b') := h.1
  have hpass := (hrest t t' (c.drop n) ⟨ht, hsize⟩).mapState hmoved
  rwa [Pass.mapState_id, Pass.mapState_id] at hpass

theorem freeze_of_ready {s t : CodeBuilder} {c : Cursor} {n : Nat}
    (h : builder limits s c = .ready () t n) : ∃ b, t.freeze = .ok b := by
  have hsize : Fills (builder limits) CodeBuilder.size := by
    rw [builder_eq, readSize_eq]
    exact fills_remember (fun _ _ => rfl) fun _ =>
      Keeps.bind (Keeps.remember (keeps_whenFilled (fun _ _ => rfl) fun _ => rfl) fun _ _ => rfl)
        fun _ => keeps_pure ()
  have hdecoded : Fills (builder limits) CodeBuilder.decoded :=
    Fills.behind fun _ => fills_remember (fun _ _ => rfl) fun _ => keeps_pure ()
  obtain ⟨size, hsize⟩ := hsize.stored h
  obtain ⟨⟨locals, body⟩, hdecoded⟩ := hdecoded.stored h
  exact ⟨⟨size, locals, body⟩, by simp only [freeze, hsize, hdecoded]⟩

end CodeBuilder

namespace CustomBuilder
variable {k : Nat} (limits : DecoderLimits)

theorem alike_readHead (sectionEnd : Nat) :
    Alike k Eq (readHead limits sectionEnd) (readHead limits (sectionEnd + k)) := by
  apply (alike_pendingField (fun _ _ => readName_error) limits.maxPayloadSize).bind
  intro name
  apply alike_offset_bind
  intro start
  simp only [Nat.add_lt_add_iff_right, Nat.add_sub_add_right]
  have hput : Alike k Eq (do
      Builder.modify fun b => { b with payload := .ofLength (sectionEnd - start) }
      return name : Builder CustomBuilder String) (do
      Builder.modify fun b => { b with payload := .ofLength (sectionEnd - start) }
      return name) :=
    (alike_modify fun b b' h => by rw [h]).bind fun _ => alike_pure name
  have hlimit {e e' : Error} (he : e.Alike e') :=
    Alike.ite (b := limits.maxPayloadSize.toNat < sectionEnd - start)
      ((alike_fail (k := k) (R := Eq) (σ := CustomBuilder) (α := PUnit) he).bind fun _ => hput) hput
  apply Alike.ite
  · apply (alike_fail ?_).bind fun _ => hlimit ?_
    · exact ⟨rfl, rfl, rfl⟩
    · exact ⟨rfl, rfl, rfl⟩
  · apply hlimit
    exact ⟨rfl, rfl, rfl⟩

theorem alike_builder (sectionEnd : Nat) :
    Alike k Eq (builder limits sectionEnd) (builder limits (sectionEnd + k)) := by
  have hname : Alike k Eq
      (Builder.remember name (fun n b => { b with name := some n }) (readHead limits sectionEnd))
      (Builder.remember name (fun n b => { b with name := some n })
        (readHead limits (sectionEnd + k))) := by
    apply (alike_readHead limits sectionEnd).remember
    · intro b b' h
      rw [h]
    · intro a b b' h
      rw [h]
  apply hname.bind
  intro name
  have hpayload : Alike k Eq (do
      Builder.zoom payload (fun f b => { b with payload := f }) ByteField.builder
      let b ← Builder.get
      Builder.modify fun b => { b with payload := .ofLength 0 }
      Builder.lift b.payload.freeze) (do
      Builder.zoom payload (fun f b => { b with payload := f }) ByteField.builder
      let b ← Builder.get
      Builder.modify fun b => { b with payload := .ofLength 0 }
      Builder.lift b.payload.freeze) := by
    apply alike_filled
    · intro b b' h
      rw [h]
    · intro f b
      rfl
    · intro f b b' h
      rw [h]
    · intro b b' h
      rw [h]
    · intro b b' h hcomplete
      rw [← h, ByteField.freeze_of_isComplete hcomplete]
      exact .ok _
  apply (alike_remember hpayload).bind
  intro bytes
  exact alike_pure ()

theorem freeze_of_ready {sectionEnd n : Nat} {s t : CustomBuilder} {c : Cursor}
    (h : builder limits sectionEnd s c = .ready () t n) : ∃ x, t.freeze = .ok x := by
  have hname : Fills (builder limits sectionEnd) CustomBuilder.name :=
    fills_remember (fun _ _ => rfl) fun _ =>
      Keeps.bind (Keeps.remember (keeps_whenFilled (fun _ _ => rfl) fun _ => rfl) fun _ _ => rfl)
        fun _ => keeps_pure ()
  have hbytes : Fills (builder limits sectionEnd) CustomBuilder.bytes :=
    Fills.behind fun _ => fills_remember (fun _ _ => rfl) fun _ => keeps_pure ()
  obtain ⟨name, hname⟩ := hname.stored h
  obtain ⟨bytes, hbytes⟩ := hbytes.stored h
  exact ⟨⟨name, bytes⟩, by simp only [freeze, hname, hbytes]⟩

/-- The end of the section is as much further back as its bytes are. -/
theorem alike_harvest (sectionEnd : Nat) :
    Alike k Eq (harvest (builder limits sectionEnd) freeze {})
      (harvest (builder limits (sectionEnd + k)) freeze {}) := by
  apply (alike_builder limits sectionEnd).harvest rfl
  · intro b b' h
    rw [h]
  · intro s c t n h
    exact freeze_of_ready limits h

end CustomBuilder

namespace EntryBuilder
variable {k : Nat} (limits : DecoderLimits)

/-- The same builder, but for the place of the body that is being read. -/
inductive Moved (k : Nat) : EntryBuilder → EntryBuilder → Prop
  | same (b : EntryBuilder) (h : ∀ p, b ≠ code p) : Moved k b b
  | code {b b' : CodeBuilder} (h : b.Moved k b') : Moved k (code b) (code b')

theorem moved_ofSection {id : SectionId} {b : EntryBuilder} (h : ofSection? id = some b) :
    Moved k b b := by
  cases id with
  | code =>
    cases h
    exact .code ⟨rfl, rfl, rfl, fun h => absurd rfl h⟩
  | type | imports | function | table | memory | global | exports | data =>
    cases h
    apply Moved.same
    intro p h
    cases h
  | custom | start | element | dataCount => cases h

theorem alike_whole {α : Type} {r : Reader α} (hr : Reader.Alike k r r) (entry : α → Entry) :
    Alike k (Moved k) (whole r entry) (whole r entry) :=
  (alike_read hr).bind fun _ => alike_pure _

/-- A builder inside another, whose state is moved as its own is. -/
theorem alike_inside {σ α : Type} {R : σ → σ → Prop} {p : Builder σ α} {inside : σ → EntryBuilder}
    (hp : Alike k R p p) (entry : α → Entry) (hinside : ∀ s s', R s s' → Moved k (inside s) (inside s'))
    {s s' : σ} (h : R s s') (c : Cursor) :
    ((builder.parts entry p s c).mapState inside).Alike (Moved k)
      ((builder.parts entry p s' (c.moved k)).mapState inside) := by
  have hparts : Alike k R (builder.parts entry p) (builder.parts entry p) :=
    hp.bind fun a => alike_pure (entry a)
  exact (hparts s s' c h).mapState hinside

theorem alike_builder : Alike k (Moved k) (builder limits) (builder limits) := by
  intro b b' c h
  have hsame {σ : Type} {inside : σ → EntryBuilder} (hinside : ∀ s p, inside s ≠ .code p) (s s' : σ)
      (h : s = s') : Moved k (inside s) (inside s') := by
    rw [h]
    exact .same _ (hinside s')
  cases h with
  | code h =>
    have hharvest : Alike k (CodeBuilder.Moved k)
        (harvest (CodeBuilder.builder limits) CodeBuilder.freeze {})
        (harvest (CodeBuilder.builder limits) CodeBuilder.freeze {}) := by
      apply (CodeBuilder.alike_builder limits).harvest
      · exact ⟨rfl, rfl, rfl, fun h => absurd rfl h⟩
      · intro b b' h
        simp only [CodeBuilder.freeze, h.size, h.decoded]
      · intro s c t n h
        exact CodeBuilder.freeze_of_ready limits h
    exact alike_inside hharvest .code (fun _ _ h => .code h) h c
  | same b hb =>
    cases b with
    | type => exact alike_whole FuncType.alike_reader .type _ _ c (.same _ hb)
    | function => exact alike_whole Reader.alike_u32 .function _ _ c (.same _ hb)
    | table => exact alike_whole TableType.alike_reader .table _ _ c (.same _ hb)
    | memory => exact alike_whole Limits.alike_reader .memory _ _ c (.same _ hb)
    | imports p =>
      exact alike_inside ((ImportBuilder.alike_builder limits).harvest rfl
        (fun s s' h => by rw [h]) (ImportBuilder.freeze_of_ready limits)) .imports
        (hsame fun s p h => by cases h) rfl c
    | global p =>
      exact alike_inside ((GlobalBuilder.alike_builder limits).harvest rfl
        (fun s s' h => by rw [h]) (GlobalBuilder.freeze_of_ready limits)) .global
        (hsame fun s p h => by cases h) rfl c
    | exports p =>
      exact alike_inside ((ExportBuilder.alike_builder limits).harvest rfl
        (fun s s' h => by rw [h]) (ExportBuilder.freeze_of_ready limits)) .exports
        (hsame fun s p h => by cases h) rfl c
    | code p => exact absurd rfl (hb p)
    | data p =>
      exact alike_inside ((DataBuilder.alike_builder limits).harvest rfl
        (fun s s' h => by rw [h]) (DataBuilder.freeze_of_ready limits)) .data
        (hsame fun s p h => by cases h) rfl c

end EntryBuilder
end WasmStream
