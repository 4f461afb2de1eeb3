import WasmStream.Proofs.ExpressionScan
import WasmStream.Decoder.EntryBuilder

/-! Builders that lose nothing when they stop for lack of input. A pass over a part of the bytes, taken
up again where it stopped, comes to what one pass over all of them comes to; a pass that is ready or
has failed is not changed by the bytes behind it. -/
namespace WasmStream

namespace Pass
variable {σ τ α : Type}

@[simp] theorem after_ready (n : Nat) (a : α) (s : σ) (m : Nat) :
    (ready a s m).after n = ready a s (n + m) := rfl
@[simp] theorem after_paused (n : Nat) (s : σ) (m : Nat) :
    (paused s m : Pass σ α).after n = paused s (n + m) := rfl
@[simp] theorem after_failed (n : Nat) (e : Error) (s : σ) (m : Nat) :
    (failed e s m : Pass σ α).after n = failed e s (n + m) := rfl

@[simp] theorem mapState_paused (f : σ → τ) (s : σ) (n : Nat) :
    (paused s n : Pass σ α).mapState f = paused (f s) n := rfl

@[simp] theorem after_zero (p : Pass σ α) : p.after 0 = p := by cases p <;> simp [after]

theorem after_after (m n : Nat) (p : Pass σ α) : (p.after n).after m = p.after (m + n) := by
  cases p <;> simp [after, Nat.add_assoc]

@[simp] theorem state_after (n : Nat) (p : Pass σ α) : (p.after n).state = p.state := by
  cases p <;> rfl

@[simp] theorem state_mapState (f : σ → τ) (p : Pass σ α) : (p.mapState f).state = f p.state := by
  cases p <;> rfl

@[simp] theorem used_after (n : Nat) (p : Pass σ α) : (p.after n).used = n + p.used := by
  cases p <;> rfl

@[simp] theorem used_mapState (f : σ → τ) (p : Pass σ α) : (p.mapState f).used = p.used := by
  cases p <;> rfl

theorem mapState_after (f : σ → τ) (n : Nat) (p : Pass σ α) :
    (p.after n).mapState f = (p.mapState f).after n := by cases p <;> rfl

end Pass

namespace Builder
variable {σ τ α β : Type}

/-- What a pass over `c` comes to once `more` has arrived. -/
def resume (p : Builder σ α) (c : Cursor) (more : List UInt8) : Pass σ α → Pass σ α
  | .paused s n => (p s ((c.drop n).append more)).after n
  | .ready a s n => .ready a s n
  | .failed e s n => .failed e s n

@[simp] theorem resume_ready (p : Builder σ α) (c : Cursor) (more : List UInt8) (a : α) (s : σ)
    (n : Nat) : p.resume c more (.ready a s n) = .ready a s n := rfl
@[simp] theorem resume_paused (p : Builder σ α) (c : Cursor) (more : List UInt8) (s : σ) (n : Nat) :
    p.resume c more (.paused s n) = (p s ((c.drop n).append more)).after n := rfl
@[simp] theorem resume_failed (p : Builder σ α) (c : Cursor) (more : List UInt8) (e : Error) (s : σ)
    (n : Nat) : p.resume c more (.failed e s n) = .failed e s n := rfl

theorem resume_after (p : Builder σ α) (c : Cursor) (more : List UInt8) (n : Nat)
    (pass : Pass σ α) :
    p.resume c more (pass.after n) = (p.resume (c.drop n) more pass).after n := by
  cases pass with
  | ready a s m => rfl
  | paused s m =>
    rw [Pass.after_paused, resume_paused, resume_paused, Pass.after_after, Cursor.drop_drop]
  | failed e s m => rfl

/-- Passes that begin in the state `s` can be cut anywhere. -/
def ResumesFrom (p : Builder σ α) (s : σ) : Prop :=
  ∀ c, (p s c).used ≤ c.rest.length ∧ ∀ more, p s (c.append more) = p.resume c more (p s c)

def Resumable (p : Builder σ α) : Prop := ∀ s, ResumesFrom p s

theorem bind_of_ready {p : Builder σ α} (f : α → Builder σ β) {s s' : σ} {c : Cursor} {a : α}
    {n : Nat} (h : p s c = .ready a s' n) : (p >>= f) s c = (f a s' (c.drop n)).after n := by
  rw [bind_run, h]

theorem bind_of_paused {p : Builder σ α} (f : α → Builder σ β) {s s' : σ} {c : Cursor} {n : Nat}
    (h : p s c = .paused s' n) : (p >>= f) s c = .paused s' n := by
  rw [bind_run, h]

theorem bind_of_failed {p : Builder σ α} (f : α → Builder σ β) {s s' : σ} {c : Cursor} {e : Error}
    {n : Nat} (h : p s c = .failed e s' n) : (p >>= f) s c = .failed e s' n := by
  rw [bind_run, h]

/-- The first builder goes on behind `n` bytes, and so does the whole. -/
theorem bind_of_after {p : Builder σ α} (f : α → Builder σ β) {s s' : σ} {c : Cursor} {n : Nat}
    (h : p s c = (p s' (c.drop n)).after n) :
    (p >>= f) s c = ((p >>= f) s' (c.drop n)).after n := by
  cases hp : p s' (c.drop n) with
  | ready a t m =>
    rw [hp] at h
    rw [bind_of_ready f h, bind_of_ready f hp, Pass.after_after, Cursor.drop_drop]
  | paused t m =>
    rw [hp] at h
    rw [bind_of_paused f h, bind_of_paused f hp, Pass.after]
  | failed e t m =>
    rw [hp] at h
    rw [bind_of_failed f h, bind_of_failed f hp, Pass.after]

/-- The second builder may stop only where the first one would at once be ready again. -/
theorem Resumable.bind {p : Builder σ α} {f : α → Builder σ β} (hp : Resumable p)
    (hf : ∀ a, Resumable (f a))
    (hagain : ∀ {s c a s' n c' s'' m}, p s c = .ready a s' n → f a s' c' = .paused s'' m →
      ∀ c'', p s'' c'' = .ready a s'' 0) :
    Resumable (p >>= f) := by
  intro s c
  obtain ⟨hle, hmore⟩ := hp s c
  cases hc : p s c with
  | ready a s' n =>
    rw [hc] at hle hmore
    replace hle : n ≤ c.rest.length := hle
    obtain ⟨hle', hmore'⟩ := hf a s' (c.drop n)
    rw [bind_of_ready f hc]
    refine ⟨?_, fun more => ?_⟩
    · simp only [Cursor.drop_rest, List.length_drop] at hle'
      rw [Pass.used_after]
      omega
    · rw [bind_of_ready f (hmore more), Cursor.drop_append hle, hmore' more]
      cases hd : f a s' (c.drop n) with
      | ready b t m => rfl
      | paused t m =>
        rw [resume_after, resume_paused, resume_paused, bind_of_ready f (hagain hc hd _),
          Cursor.drop_zero, Pass.after_zero]
      | failed e t m => rfl
  | paused s' n =>
    rw [hc] at hle hmore
    rw [bind_of_paused f hc]
    refine ⟨hle, fun more => ?_⟩
    have hcut : (c.append more).drop n = (c.drop n).append more := Cursor.drop_append hle more
    rw [resume, ← hcut]
    exact bind_of_after f (by rw [hmore more, resume, hcut])
  | failed e s' n =>
    rw [hc] at hle hmore
    rw [bind_of_failed f hc]
    exact ⟨hle, fun more => bind_of_failed f (hmore more)⟩

/-- A builder that looks at the state and the offset alone: it uses nothing and never stops. -/
structure Idle (p : Builder σ α) : Prop where
  append : ∀ s c more, p s (c.append more) = p s c
  pass : ∀ s c, (∃ a s', p s c = .ready a s' 0) ∨ ∃ e s', p s c = .failed e s' 0

theorem idle_pure (a : α) : Idle (pure a : Builder σ α) where
  append _ _ _ := rfl
  pass s _ := .inl ⟨a, s, rfl⟩

theorem idle_get : Idle (get : Builder σ σ) where
  append _ _ _ := rfl
  pass s _ := .inl ⟨s, s, rfl⟩

theorem idle_modify (f : σ → σ) : Idle (modify f) where
  append _ _ _ := rfl
  pass s _ := .inl ⟨(), f s, rfl⟩

theorem idle_offset : Idle (offset : Builder σ Nat) where
  append _ _ _ := rfl
  pass s c := .inl ⟨c.offset, s, rfl⟩

theorem idle_fail (error : Error) : Idle (fail error : Builder σ α) where
  append _ _ _ := rfl
  pass s _ := .inr ⟨error, s, rfl⟩

theorem idle_lift (x : Except Error α) : Idle (lift x : Builder σ α) := by
  cases x with
  | ok a => exact idle_pure a
  | error e => exact idle_fail e

theorem Idle.bind {p : Builder σ α} {f : α → Builder σ β} (hp : Idle p) (hf : ∀ a, Idle (f a)) :
    Idle (p >>= f) where
  append s c more := by
    rcases hp.pass s c with ⟨a, s', h⟩ | ⟨e, s', h⟩
    · have hmore := (hp.append s c more).trans h
      rw [bind_of_ready f h, bind_of_ready f hmore, Cursor.drop_zero, Cursor.drop_zero,
        (hf a).append]
    · have hmore := (hp.append s c more).trans h
      rw [bind_of_failed f h, bind_of_failed f hmore]
  pass s c := by
    rcases hp.pass s c with ⟨a, s', h⟩ | ⟨e, s', h⟩
    · rw [bind_of_ready f h, Cursor.drop_zero, Pass.after_zero]
      exact (hf a).pass s' c
    · exact .inr ⟨e, s', bind_of_failed f h⟩

theorem Idle.resumable {p : Builder σ α} (hp : Idle p) : Resumable p := by
  intro s c
  rcases hp.pass s c with ⟨a, s', h⟩ | ⟨e, s', h⟩
  · rw [h]
    exact ⟨Nat.zero_le _, fun more => (hp.append s c more).trans h⟩
  · rw [h]
    exact ⟨Nat.zero_le _, fun more => (hp.append s c more).trans h⟩

theorem Resumable.ite {p q : Builder σ α} {b : Prop} [Decidable b] (hp : Resumable p)
    (hq : Resumable q) : Resumable (if b then p else q) := by
  split
  · exact hp
  · exact hq

theorem Idle.ite {p q : Builder σ α} {b : Prop} [Decidable b] (hp : Idle p) (hq : Idle q) :
    Idle (if b then p else q) := by
  split
  · exact hp
  · exact hq

theorem Resumable.bind_idle {p : Builder σ α} {f : α → Builder σ β} (hp : Resumable p)
    (hf : ∀ a, Idle (f a)) : Resumable (p >>= f) := by
  refine hp.bind (fun a => (hf a).resumable) fun {s c a s' n c' s'' m} _ hpaused => ?_
  rcases (hf a).pass s' c' with ⟨b, t, h⟩ | ⟨e, t, h⟩ <;> rw [h] at hpaused <;> cases hpaused

theorem read_of_done {r : Reader α} {c : Cursor} {a : α} {n : Nat} (h : r c = .done a n) (s : σ) :
    read r s c = .ready a s n := by rw [read, h]

theorem read_of_needMore {r : Reader α} {c : Cursor} (h : r c = .needMore) (s : σ) :
    read r s c = .paused s 0 := by rw [read, h]

theorem read_of_fail {r : Reader α} {c : Cursor} {e : Error} (h : r c = .fail e) (s : σ) :
    read r s c = .failed e s 0 := by rw [read, h]

theorem resumable_read {r : Reader α} (hr : r.Stable) : Resumable (read r : Builder σ α) := by
  intro s c
  cases hc : r c with
  | done a n =>
    obtain ⟨hn, hmore⟩ := hr.done hc
    rw [read_of_done hc]
    exact ⟨hn, fun more => read_of_done (hmore more) s⟩
  | needMore =>
    rw [read_of_needMore hc]
    refine ⟨Nat.zero_le _, fun more => ?_⟩
    rw [resume_paused, Cursor.drop_zero, Pass.after_zero]
  | fail e =>
    rw [read_of_fail hc]
    exact ⟨Nat.zero_le _, fun more => read_of_fail (hr.fail hc more) s⟩

theorem zoom_run (part : σ → τ) (put : τ → σ → σ) (p : Builder τ α) (s : σ) (c : Cursor) :
    zoom part put p s c = (p (part s) c).mapState fun t => put t s := rfl

/-- Work on a part of the state, where putting a part back loses no other. -/
theorem Resumable.zoom {part : σ → τ} {put : τ → σ → σ} {p : Builder τ α} (hp : Resumable p)
    (hget : ∀ t s, part (put t s) = t) (hput : ∀ t t' s, put t' (put t s) = put t' s) :
    Resumable (zoom part put p) := by
  intro s c
  obtain ⟨hle, hmore⟩ := hp (part s) c
  rw [zoom_run]
  refine ⟨by rwa [Pass.used_mapState], fun more => ?_⟩
  rw [zoom_run, hmore more]
  cases hc : p (part s) c with
  | ready a t n => rfl
  | paused t n =>
    have hlens : (fun t' => put t' (put t s)) = fun t' => put t' s := funext fun t' => hput t t' s
    rw [resume_paused, Pass.mapState_after, Pass.mapState_paused, resume_paused, zoom_run, hget,
      hlens]
  | failed e t n => rfl

/-- However a pass ends, it leaves a part of the state as it was. -/
def Keeps (p : Builder σ α) (part : σ → τ) : Prop := ∀ s c, part (p s c).state = part s

section Keeps
variable {part : σ → τ}

theorem keeps_pure (a : α) : Keeps (pure a : Builder σ α) part := fun _ _ => rfl
theorem keeps_get : Keeps (get : Builder σ σ) part := fun _ _ => rfl
theorem keeps_fail (error : Error) : Keeps (fail error : Builder σ α) part := fun _ _ => rfl
theorem keeps_offset : Keeps (offset : Builder σ Nat) part := fun _ _ => rfl
theorem keeps_modify {f : σ → σ} (h : ∀ s, part (f s) = part s) : Keeps (modify f) part :=
  fun s _ => h s

theorem keeps_lift (x : Except Error α) : Keeps (lift x : Builder σ α) part := by
  cases x <;> exact fun _ _ => rfl

theorem keeps_read (r : Reader α) : Keeps (read r : Builder σ α) part := by
  intro s c
  unfold read
  cases r c <;> rfl

theorem keeps_zoom {υ : Type} {sub : σ → υ} {put : υ → σ → σ} (p : Builder υ α)
    (h : ∀ u s, part (put u s) = part s) : Keeps (zoom sub put p) part := fun s c => by
  simp only [zoom, Pass.state_mapState, h]

theorem Keeps.bind {p : Builder σ α} {f : α → Builder σ β} (hp : Keeps p part)
    (hf : ∀ a, Keeps (f a) part) : Keeps (p >>= f) part := by
  intro s c
  have hs := hp s c
  cases hc : p s c with
  | ready a s' n =>
    rw [hc] at hs
    rw [bind_of_ready f hc, Pass.state_after, hf a s' (c.drop n)]
    exact hs
  | paused s' n =>
    rw [bind_of_paused f hc]
    rwa [hc] at hs
  | failed e s' n =>
    rw [bind_of_failed f hc]
    rwa [hc] at hs

theorem Keeps.ite {p q : Builder σ α} {b : Prop} [Decidable b] (hp : Keeps p part)
    (hq : Keeps q part) : Keeps (if b then p else q) part := by
  split
  · exact hp
  · exact hq

theorem Keeps.remember {field : σ → Option α} {put : α → σ → σ} {p : Builder σ α}
    (hp : Keeps p part) (hput : ∀ a s, part (put a s) = part s) :
    Keeps (remember field put p) part := by
  refine keeps_get.bind fun s => ?_
  cases field s with
  | some a => exact keeps_pure a
  | none => exact hp.bind fun a => (keeps_modify (hput a)).bind fun _ => keeps_pure a

end Keeps

section Remember
variable {field : σ → Option α} {put : α → σ → σ} {p : Builder σ α} {s : σ}

theorem remember_of_some {a : α} (h : field s = some a) (c : Cursor) :
    remember field put p s c = .ready a s 0 := by
  unfold remember
  simp only [bind_run, get, h, pure_run, Pass.after]

theorem remember_of_none (h : field s = none) (c : Cursor) :
    remember field put p s c = (p >>= fun a => modify (put a) >>= fun _ => pure a) s c := by
  unfold remember
  rw [bind_run]
  simp only [get, h, Cursor.drop_zero, Pass.after_zero]

theorem Resumable.remember (hp : Resumable p) (hkeep : Keeps p field) :
    Resumable (remember field put p) := by
  intro s
  cases hs : field s with
  | some a =>
    intro c
    rw [remember_of_some hs]
    exact ⟨Nat.zero_le _, fun more => remember_of_some hs (c.append more)⟩
  | none =>
    intro c
    obtain ⟨hle, hmore⟩ := hp s c
    rw [remember_of_none hs]
    cases hc : p s c with
    | ready a t n =>
      rw [hc] at hle hmore
      rw [bind_of_ready _ hc]
      exact ⟨hle, fun more => by rw [remember_of_none hs, bind_of_ready _ (hmore more)]; rfl⟩
    | paused t n =>
      rw [hc] at hle hmore
      have ht : field t = none := by
        have hk := hkeep s c
        rw [hc] at hk
        exact hk.trans hs
      rw [bind_of_paused _ hc]
      refine ⟨hle, fun more => ?_⟩
      have hcut : (c.append more).drop n = (c.drop n).append more := Cursor.drop_append hle more
      rw [remember_of_none hs, resume_paused, remember_of_none ht, ← hcut]
      exact bind_of_after _ (by rw [hmore more, resume_paused, hcut])
    | failed e t n =>
      rw [hc] at hle hmore
      rw [bind_of_failed _ hc]
      exact ⟨hle, fun more => by rw [remember_of_none hs, bind_of_failed _ (hmore more)]; rfl⟩

theorem remember_stored (hput : ∀ a s, field (put a s) = some a) {c : Cursor} {a : α} {s' : σ}
    {n : Nat} (h : remember field put p s c = .ready a s' n) : field s' = some a := by
  cases hs : field s with
  | some b =>
    rw [remember_of_some hs] at h
    cases h
    exact hs
  | none =>
    rw [remember_of_none hs] at h
    cases hp : p s c with
    | ready b t m =>
      rw [bind_of_ready _ hp] at h
      cases h
      exact hput a t
    | paused t m => rw [bind_of_paused _ hp] at h; cases h
    | failed e t m => rw [bind_of_failed _ hp] at h; cases h

/-- What stands behind a remembered field may stop as long as it keeps that field. -/
theorem Resumable.remember_bind {f : α → Builder σ β} (hp : Resumable p) (hkeep : Keeps p field)
    (hput : ∀ a s, field (put a s) = some a) (hf : ∀ a, Resumable (f a))
    (hfkeep : ∀ a, Keeps (f a) field) : Resumable (Builder.remember field put p >>= f) := by
  refine (hp.remember hkeep).bind hf fun {s c a s' n c' s'' m} hready hpaused c'' => ?_
  have hs := hfkeep a s' c'
  rw [hpaused] at hs
  exact remember_of_some (hs.trans (remember_stored hput hready)) c''

end Remember

/-- A value together with the place where it begins. -/
theorem resumable_offset_read {r : Reader α} (hr : r.Stable) {g : Nat → α → Builder σ β}
    (hg : ∀ start a, Idle (g start a)) :
    Resumable (offset >>= fun start => read r >>= fun a => g start a) := by
  have hplace : (offset >>= fun start => read r >>= fun a => g start a : Builder σ β) =
      read (Reader.offset >>= fun start => r >>= fun a => pure (start, a)) >>=
        fun p => g p.1 p.2 := by
    funext s c
    simp only [bind_run, offset, Reader.offset, read, Reader.bind_run, Reader.pure_run,
      Cursor.drop_zero, Pass.after_zero]
    cases r c <;> simp [Outcome.after]
  rw [hplace]
  have hstable : (Reader.offset >>= fun start => r >>= fun a => pure (start, a)).Stable :=
    Reader.stable_offset.bind fun start => hr.bind fun a => Reader.stable_pure (start, a)
  exact (resumable_read hstable).bind_idle fun p => hg p.1 p.2

end Builder
end WasmStream
