import WasmStream.Proofs.Rejection.Builders

/-! When a builder is ready. It is ready if and only if what it holds can be frozen: taken up once more
it is ready at once, and whatever else a pass comes to leaves a field of the entry open. -/
namespace WasmStream

namespace Builder
variable {σ α β ε : Type}

def Freezes (freeze : σ → Except Error ε) (s : σ) : Prop := ∃ entry, freeze s = .ok entry

/-- A failure leaves a state that cannot be frozen. -/
def FailsOpen (p : Builder σ α) (freeze : σ → Except Error ε) : Prop :=
  ∀ s c e t n, p s c = .failed e t n → ¬Freezes freeze t

theorem failsOpen_pure (freeze : σ → Except Error ε) (a : α) :
    FailsOpen (pure a : Builder σ α) freeze := nofun

section Remember
variable {field : σ → Option α} {put : α → σ → σ} {p : Builder σ α} {f : α → Builder σ β} {s : σ}
variable {freeze : σ → Except Error ε}

theorem remember_bind_of_some {a : α} (h : field s = some a) (c : Cursor) :
    (remember field put p >>= f) s c = f a s c := by
  rw [bind_of_ready f (remember_of_some h c), Cursor.drop_zero, Pass.after_zero]

/-- A field is open until it has been decoded, and it is still open when that has failed. -/
theorem FailsOpen.remember_bind (hkeep : Keeps p field)
    (hneeded : ∀ {t entry}, freeze t = .ok entry → ∃ a, field t = some a)
    (hf : ∀ a, FailsOpen (f a) freeze) : FailsOpen (remember field put p >>= f) freeze := by
  intro s c e t n h
  obtain hfirst | ⟨a, u, m, l, -, hrest, -⟩ := bind_eq_failed h
  · cases hs : field s with
    | some a =>
      rw [remember_of_some hs] at hfirst
      cases hfirst
    | none =>
      rw [remember_of_none hs] at hfirst
      obtain hp | ⟨a, u, m, l, -, hput, -⟩ := bind_eq_failed hfirst
      · have hopen := hkeep s c
        rw [hp] at hopen
        rintro ⟨entry, hfreeze⟩
        obtain ⟨a, ha⟩ := hneeded hfreeze
        cases ha.symm.trans (hopen.trans hs)
      · cases hput
  · exact hf a u (c.drop m) e t l hrest

end Remember

/-- A builder that can be cut anywhere, and is ready where what it holds can be frozen and only there.
`Valid` is what its states have in common. -/
structure Completes (p : Builder σ Unit) (freeze : σ → Except Error ε) (Valid : σ → Prop) : Prop where
  resumable : Resumable p
  valid : ∀ {s}, Valid s → ∀ c, Valid (p s c).state
  ready : ∀ {s c t n}, Valid s → p s c = .ready () t n → Freezes freeze t
  again : ∀ {s entry}, freeze s = .ok entry → ∀ c, p s c = .ready () s 0
  failed : ∀ {s c e t n}, Valid s → p s c = .failed e t n → ¬Freezes freeze t

/-- A builder that could be frozen would not have stopped for lack of input. -/
theorem Completes.paused {p : Builder σ Unit} {freeze : σ → Except Error ε} {Valid : σ → Prop}
    (h : Completes p freeze Valid) {s t : σ} {c : Cursor} {n : Nat} (hp : p s c = .paused t n) :
    ¬Freezes freeze t := by
  rintro ⟨entry, hfreeze⟩
  have hresumed := (h.resumable s c).2 []
  rw [Cursor.append_nil, hp, resume_paused, h.again hfreeze] at hresumed
  cases hresumed

/-- Nothing needs to be known of the states of a builder whose fields are remembered. -/
theorem Completes.of_failsOpen {p : Builder σ Unit} {freeze : σ → Except Error ε}
    (hresumable : Resumable p) (hready : ∀ {s c t n}, p s c = .ready () t n → Freezes freeze t)
    (hfails : FailsOpen p freeze)
    (hagain : ∀ {s entry}, freeze s = .ok entry → ∀ c, p s c = .ready () s 0) :
    Completes p freeze fun _ => True where
  resumable := hresumable
  valid _ _ := trivial
  ready _ h := hready h
  again := hagain
  failed _ h := hfails _ _ _ _ _ h

/-- What a fresh builder has found when it is ready is what the reader of its entry finds. -/
theorem reader_of_ready {p : Builder σ Unit} {freeze : σ → Except Error ε} {fresh t : σ}
    {r : Reader ε}
    (hharvest : atOnce (harvest p freeze fresh) fresh = r >>= fun a => pure (a, fresh))
    {c : Cursor} {n : Nat} {entry : ε} (h : p fresh c = .ready () t n)
    (hfreeze : freeze t = .ok entry) : r c = .done entry n := by
  have hready : harvest p freeze fresh fresh c = .ready entry fresh n := by
    rw [harvest, bind_of_ready _ h]
    simp only [bind_run, Builder.get, Builder.modify, hfreeze, Builder.lift, Builder.pure_run,
      Pass.after, Nat.add_zero]
  rw [ready_iff, hharvest] at hready
  obtain ⟨a, m, l, hr, hpure, rfl⟩ := Reader.bind_eq_done.mp hready
  cases hpure
  exact hr

/-- A pass of a fresh builder ends as the reader of the entry does, and holds what that has found. -/
inductive Matches (freeze : σ → Except Error ε) : Pass σ Unit → Outcome ε → Prop
  | ready {t : σ} {n : Nat} {entry : ε} (h : freeze t = .ok entry) :
      Matches freeze (.ready () t n) (.done entry n)
  | paused (t : σ) (n : Nat) : Matches freeze (.paused t n) .needMore
  | failed (e : Error) (t : σ) (n : Nat) : Matches freeze (.failed e t n) (.fail e)

theorem matches_of_harvest {p : Builder σ Unit} {freeze : σ → Except Error ε} {fresh : σ}
    {r : Reader ε}
    (hharvest : atOnce (harvest p freeze fresh) fresh = r >>= fun a => pure (a, fresh))
    (hready : ∀ {c t n}, p fresh c = .ready () t n → Freezes freeze t) (c : Cursor) :
    Matches freeze (p fresh c) (r c) := by
  have hreader : (r >>= fun a => pure (a, fresh)) c = atOnce (harvest p freeze fresh) fresh c :=
    (congrFun hharvest c).symm
  rw [Reader.bind_run] at hreader
  cases hp : p fresh c with
  | ready _ t n =>
    obtain ⟨entry, hfreeze⟩ := hready hp
    rw [reader_of_ready hharvest hp hfreeze]
    exact .ready hfreeze
  | paused t n =>
    rw [atOnce, harvest, bind_of_paused _ hp] at hreader
    cases hr : r c with
    | needMore => exact .paused t n
    | done a m | fail e =>
      rw [hr] at hreader
      cases hreader
  | failed e t n =>
    rw [atOnce, harvest, bind_of_failed _ hp] at hreader
    cases hr : r c with
    | fail e' =>
      rw [hr] at hreader
      cases hreader
      exact .failed e t n
    | done a m | needMore =>
      rw [hr] at hreader
      cases hreader

end Builder
open Builder

variable (limits : DecoderLimits)

namespace GlobalBuilder

theorem fields_of_freeze {b : GlobalBuilder} {entry : Global} (h : b.freeze = .ok entry) :
    (∃ type, b.type = some type) ∧ ∃ init, b.init = some init := by
  unfold freeze at h
  split at h
  · next htype hinit => exact ⟨⟨_, htype⟩, _, hinit⟩
  · cases h

theorem failsOpen_builder : FailsOpen (builder limits) freeze := by
  refine .remember_bind (keeps_read _) (fun h => (fields_of_freeze h).1) fun _ => ?_
  exact .remember_bind (keeps_read _) (fun h => (fields_of_freeze h).2) fun _ =>
    failsOpen_pure freeze ()

theorem completes : Completes (builder limits) freeze fun _ => True := by
  refine .of_failsOpen (resumable_builder limits) (freeze_of_ready limits)
    (failsOpen_builder limits) fun h c => ?_
  obtain ⟨⟨_, htype⟩, _, hinit⟩ := fields_of_freeze h
  exact (remember_bind_of_some htype c).trans (remember_bind_of_some hinit c)

end GlobalBuilder

namespace DataBuilder

theorem fields_of_freeze {b : DataBuilder} {entry : DataSegment} (h : b.freeze = .ok entry) :
    (∃ flags, b.flags = some flags) ∧ (∃ memoryIndex, b.memoryIndex = some memoryIndex) ∧
      (∃ offset, b.offset = some offset) ∧ ∃ bytes, b.bytes = some bytes := by
  unfold freeze at h
  split at h
  · next hflags hindex hoffset hbytes => exact ⟨⟨_, hflags⟩, ⟨_, hindex⟩, ⟨_, hoffset⟩, _, hbytes⟩
  · cases h

theorem failsOpen_builder : FailsOpen (builder limits) freeze := by
  refine .remember_bind (keeps_readFlags _) (fun h => (fields_of_freeze h).1) fun _ => ?_
  refine .remember_bind (Keeps.ite (keeps_read _) (keeps_pure 0))
    (fun h => (fields_of_freeze h).2.1) fun _ => ?_
  refine .remember_bind (Keeps.ite (keeps_pure []) (keeps_read _))
    (fun h => (fields_of_freeze h).2.2.1) fun _ => ?_
  exact .remember_bind (keeps_zoom _ fun _ _ => rfl) (fun h => (fields_of_freeze h).2.2.2)
    fun _ => failsOpen_pure freeze ()

theorem completes : Completes (builder limits) freeze fun _ => True := by
  refine .of_failsOpen (resumable_builder limits) (freeze_of_ready limits)
    (failsOpen_builder limits) fun h c => ?_
  obtain ⟨⟨_, hflags⟩, ⟨_, hindex⟩, ⟨_, hoffset⟩, _, hbytes⟩ := fields_of_freeze h
  calc builder limits _ c
    _ = _ := remember_bind_of_some hflags c
    _ = _ := remember_bind_of_some hindex c
    _ = _ := remember_bind_of_some hoffset c
    _ = _ := remember_bind_of_some hbytes c

end DataBuilder

namespace ImportBuilder

theorem fields_of_freeze {b : ImportBuilder} {entry : Import} (h : b.freeze = .ok entry) :
    (∃ moduleName, b.moduleName = some moduleName) ∧ (∃ name, b.name = some name) ∧
      ∃ desc, b.desc = some desc := by
  unfold freeze at h
  split at h
  · next hmodule hname hdesc => exact ⟨⟨_, hmodule⟩, ⟨_, hname⟩, _, hdesc⟩
  · cases h

theorem failsOpen_builder : FailsOpen (builder limits) freeze := by
  refine .remember_bind (keeps_zoom _ fun _ _ => rfl) (fun h => (fields_of_freeze h).1) fun _ => ?_
  refine .remember_bind (keeps_zoom _ fun _ _ => rfl) (fun h => (fields_of_freeze h).2.1)
    fun _ => ?_
  exact .remember_bind (keeps_read _) (fun h => (fields_of_freeze h).2.2) fun _ =>
    failsOpen_pure freeze ()

theorem completes : Completes (builder limits) freeze fun _ => True := by
  refine .of_failsOpen (resumable_builder limits) (freeze_of_ready limits)
    (failsOpen_builder limits) fun h c => ?_
  obtain ⟨⟨_, hmodule⟩, ⟨_, hname⟩, _, hdesc⟩ := fields_of_freeze h
  calc builder limits _ c
    _ = _ := remember_bind_of_some hmodule c
    _ = _ := remember_bind_of_some hname c
    _ = _ := remember_bind_of_some hdesc c

end ImportBuilder

namespace ExportBuilder

theorem fields_of_freeze {b : ExportBuilder} {entry : Export} (h : b.freeze = .ok entry) :
    (∃ name, b.name = some name) ∧ ∃ target, b.target = some target := by
  unfold freeze at h
  split at h
  · next hname htarget => exact ⟨⟨_, hname⟩, _, htarget⟩
  · cases h

theorem failsOpen_builder : FailsOpen (builder limits) freeze := by
  refine .remember_bind (keeps_zoom _ fun _ _ => rfl) (fun h => (fields_of_freeze h).1) fun _ => ?_
  exact .remember_bind (keeps_read _) (fun h => (fields_of_freeze h).2) fun _ =>
    failsOpen_pure freeze ()

theorem completes : Completes (builder limits) freeze fun _ => True := by
  refine .of_failsOpen (resumable_builder limits) (freeze_of_ready limits)
    (failsOpen_builder limits) fun h c => ?_
  obtain ⟨⟨_, hname⟩, _, htarget⟩ := fields_of_freeze h
  exact (remember_bind_of_some hname c).trans (remember_bind_of_some htarget c)

end ExportBuilder

namespace CustomBuilder

theorem fields_of_freeze {b : CustomBuilder} {entry : CustomSection} (h : b.freeze = .ok entry) :
    (∃ name, b.name = some name) ∧ ∃ bytes, b.bytes = some bytes := by
  unfold freeze at h
  split at h
  · next hname hbytes => exact ⟨⟨_, hname⟩, _, hbytes⟩
  · cases h

theorem failsOpen_builder (sectionEnd : Nat) : FailsOpen (builder limits sectionEnd) freeze := by
  refine .remember_bind (keeps_readHead limits sectionEnd) (fun h => (fields_of_freeze h).1)
    fun _ => ?_
  exact .remember_bind (keeps_whenFilled (fun _ _ => rfl) fun _ => rfl)
    (fun h => (fields_of_freeze h).2) fun _ => failsOpen_pure freeze ()

theorem completes (sectionEnd : Nat) :
    Completes (builder limits sectionEnd) freeze fun _ => True := by
  refine .of_failsOpen (resumable_builder limits sectionEnd) (freeze_of_ready limits)
    (failsOpen_builder limits sectionEnd) fun h c => ?_
  obtain ⟨⟨_, hname⟩, _, hbytes⟩ := fields_of_freeze h
  exact (remember_bind_of_some hname c).trans (remember_bind_of_some hbytes c)

end CustomBuilder

namespace CodeBuilder

theorem fields_of_freeze {b : CodeBuilder} {entry : CodeBody} (h : b.freeze = .ok entry) :
    (∃ size, b.size = some size) ∧ ∃ decoded, b.decoded = some decoded := by
  unfold freeze at h
  split at h
  · next hsize hdecoded => exact ⟨⟨_, hsize⟩, _, hdecoded⟩
  · cases h

theorem failsOpen_builder : FailsOpen (builder limits) freeze := by
  rw [builder_eq, readSize_eq]
  refine .remember_bind (keeps_freshSize limits) (fun h => (fields_of_freeze h).1) fun _ => ?_
  exact .remember_bind (keeps_whenFilled (fun _ _ => rfl) fun _ => rfl)
    (fun h => (fields_of_freeze h).2) fun _ => failsOpen_pure freeze ()

theorem completes : Completes (builder limits) freeze fun _ => True := by
  refine .of_failsOpen (resumable_builder limits) (freeze_of_ready limits)
    (failsOpen_builder limits) fun h c => ?_
  obtain ⟨⟨_, hsize⟩, _, hdecoded⟩ := fields_of_freeze h
  rw [builder_eq, readSize_eq]
  exact (remember_bind_of_some hsize c).trans (remember_bind_of_some hdecoded c)

end CodeBuilder

namespace LocalsBuilder

/-- The number of slots, counted in before it is judged. -/
def counted (b : LocalsBuilder) (g : UInt32 × ValueType) : LocalsBuilder :=
  { b with total := b.total + g.1.toNat }

theorem group_run (b : LocalsBuilder) (c : Cursor) : group limits b c =
    match groupReader c with
    | .done g n =>
      if limits.maxLocals.toNat < b.total + g.1.toNat then
        .failed (.limitExceeded "local count" limits.maxLocals.toNat c.offset) (b.counted g) n
      else .ready () { b.counted g with groups := b.groups ++ [g] } n
    | .needMore => .paused b 0
    | .fail e => .failed e b 0 := by
  simp only [group, bind_run, Builder.offset, Builder.read, Cursor.drop_zero, Pass.after_zero]
  cases groupReader c with
  | done g n =>
    by_cases h : limits.maxLocals.toNat < b.total + g.1.toNat
    · simp [h, Builder.modify, Builder.get, Builder.fail, bind_run, counted, Pass.after]
    · simp [h, Builder.modify, Builder.get, counted, Pass.after]
  | needMore => rfl
  | fail e => rfl

/-- The groups of which `count` says how many there are, behind those that the builder has. -/
def rest (count : UInt32) : Builder LocalsBuilder Unit := do
  let seen := (← Builder.get).groups.length
  groupsFrom limits (count.toNat - seen)

theorem rest_run (count : UInt32) (b : LocalsBuilder) (c : Cursor) :
    rest limits count b c = groupsFrom limits (count.toNat - b.groups.length) b c := by
  simp only [rest, bind_run, Builder.get, Cursor.drop_zero, Pass.after_zero]

theorem builder_eq : builder limits =
    Builder.remember groupCount (fun n b => { b with groupCount := some n })
      (Builder.read Reader.u32) >>= rest limits := rfl

theorem builder_of_some {b : LocalsBuilder} {count : UInt32} (h : b.groupCount = some count)
    (c : Cursor) : builder limits b c = rest limits count b c := remember_bind_of_some h c

theorem builder_of_none {b : LocalsBuilder} (h : b.groupCount = none) (c : Cursor) :
    builder limits b c = match Reader.u32 c with
      | .done count n =>
        (rest limits count { b with groupCount := some count } (c.drop n)).after n
      | .needMore => .paused b 0
      | .fail e => .failed e b 0 := by
  rw [builder_eq, bind_run, remember_of_none h]
  simp only [bind_run, Builder.read]
  cases Reader.u32 c <;> rfl

theorem stable_groupReader : groupReader.Stable :=
  Reader.stable_u32.bind fun _ => ValueType.stable_reader.bind fun _ => Reader.stable_pure _

theorem keeps_group : Keeps (group limits) groupCount := by
  intro b c
  rw [group_run]
  split
  · split <;> rfl
  · rfl
  · rfl

theorem keeps_groupsFrom (k : Nat) : Keeps (groupsFrom limits k) groupCount := by
  induction k with
  | zero => exact keeps_pure ()
  | succ k ih => exact (keeps_group limits).bind fun _ => ih

theorem keeps_rest (count : UInt32) : Keeps (rest limits count) groupCount :=
  keeps_get.bind fun _ => keeps_groupsFrom limits _

/-- As long as groups are missing, the next one is read first. -/
theorem rest_of_lt {count : UInt32} {b : LocalsBuilder} (h : b.groups.length < count.toNat)
    (c : Cursor) : rest limits count b c = (group limits >>= fun _ => rest limits count) b c := by
  obtain ⟨k, hk⟩ : ∃ k, count.toNat - b.groups.length = k + 1 :=
    ⟨count.toNat - b.groups.length - 1, by omega⟩
  rw [rest_run, hk, groupsFrom, bind_run, bind_run, group_run]
  cases groupReader c with
  | done g n =>
    by_cases hlimit : limits.maxLocals.toNat < b.total + g.1.toNat
    · simp only [if_pos hlimit]
    · have hk' : count.toNat - (b.groups ++ [g]).length = k := by
        rw [List.length_append, List.length_singleton]
        omega
      simp only [if_neg hlimit, rest_run, hk']
  | needMore => rfl
  | fail e => rfl

theorem length_of_group {b t : LocalsBuilder} {c : Cursor} {n : Nat}
    (h : group limits b c = .ready () t n) : t.groups.length = b.groups.length + 1 := by
  rw [group_run] at h
  split at h
  · split at h
    · cases h
    · cases h
      exact List.length_append
  · cases h
  · cases h

theorem eq_of_group_paused {b t : LocalsBuilder} {c : Cursor} {n : Nat}
    (h : group limits b c = .paused t n) : t = b ∧ n = 0 := by
  rw [group_run] at h
  split at h
  · split at h <;> cases h
  · cases h
    exact ⟨rfl, rfl⟩
  · cases h

theorem groups_of_group_failed {b t : LocalsBuilder} {c : Cursor} {e : Error} {n : Nat}
    (h : group limits b c = .failed e t n) : t.groups = b.groups := by
  rw [group_run] at h
  split at h
  · split at h <;> cases h
    rfl
  · cases h
  · cases h
    rfl

theorem resumable_group : Resumable (group limits) := by
  refine resumable_offset_read stable_groupReader fun start g => ?_
  refine Idle.bind (idle_modify _) fun _ => Idle.bind idle_get fun b => ?_
  exact Idle.ite (Idle.bind (idle_fail _) fun _ => idle_modify _) (idle_modify _)

/-- Each group takes the pass one group further; where it stops, it goes on with that group. -/
theorem resumable_rest (count : UInt32) : Resumable (rest limits count) := by
  intro b
  generalize hk : count.toNat - b.groups.length = k
  induction k generalizing b with
  | zero =>
    have hready (c : Cursor) : rest limits count b c = .ready () b 0 := by
      rw [rest_run, hk]
      rfl
    intro c
    rw [hready]
    exact ⟨Nat.zero_le _, fun more => hready (c.append more)⟩
  | succ k ih =>
    have hlt : b.groups.length < count.toNat := by omega
    intro c
    obtain ⟨hle, hmore⟩ := resumable_group limits b c
    rw [rest_of_lt limits hlt]
    cases hc : group limits b c with
    | ready _ t n =>
      rw [hc] at hle hmore
      replace hle : n ≤ c.rest.length := hle
      have hlength := length_of_group limits hc
      obtain ⟨hle', hrest⟩ := ih t (by omega) (c.drop n)
      rw [Cursor.drop_rest, List.length_drop] at hle'
      rw [bind_of_ready _ hc]
      refine ⟨by rw [Pass.used_after]; omega, fun more => ?_⟩
      rw [rest_of_lt limits hlt, bind_of_ready _ (hmore more), Cursor.drop_append hle, hrest more,
        resume_after]
    | paused t n =>
      obtain ⟨rfl, rfl⟩ := eq_of_group_paused limits hc
      rw [bind_of_paused _ hc]
      refine ⟨Nat.zero_le _, fun more => ?_⟩
      rw [resume_paused, Cursor.drop_zero, Pass.after_zero]
    | failed e t n =>
      rw [hc] at hle hmore
      rw [bind_of_failed _ hc]
      exact ⟨hle, fun more => by rw [rest_of_lt limits hlt, bind_of_failed _ (hmore more)]; rfl⟩

theorem resumable_builder : Resumable (builder limits) :=
  .remember_bind (resumable_read Reader.stable_u32) (keeps_read _) (fun _ _ => rfl)
    (resumable_rest limits) (keeps_rest limits)

/-- There are groups only if it is known how many, and no more than these. -/
def Valid (b : LocalsBuilder) : Prop :=
  match b.groupCount with
  | some count => b.groups.length ≤ count.toNat
  | none => b.groups = []

theorem valid_fresh : Valid {} := by
  unfold Valid
  rfl

theorem freezes_iff {b : LocalsBuilder} : Freezes freeze b ↔
    ∃ count, b.groupCount = some count ∧ b.groups.length = count.toNat := by
  unfold Freezes freeze
  cases b.groupCount with
  | none => simp
  | some count => by_cases h : b.groups.length = count.toNat <;> simp [h]

/-- What a pass over the missing groups leaves: the count, and all of the groups if and only if it is
ready. -/
structure Rested (count : UInt32) (pass : Pass LocalsBuilder Unit) : Prop where
  groupCount : pass.state.groupCount = some count
  length_le : pass.state.groups.length ≤ count.toNat
  ready_iff : (∃ n, pass = .ready () pass.state n) ↔ pass.state.groups.length = count.toNat

theorem Rested.after {count : UInt32} {pass : Pass LocalsBuilder Unit} (h : Rested count pass)
    (n : Nat) : Rested count (pass.after n) where
  groupCount := by rw [Pass.state_after, h.groupCount]
  length_le := by
    rw [Pass.state_after]
    exact h.length_le
  ready_iff := by
    rw [Pass.state_after, ← h.ready_iff]
    cases pass <;> simp [Pass.state]

theorem rested_rest {count : UInt32} {b : LocalsBuilder} (hcount : b.groupCount = some count)
    (hle : b.groups.length ≤ count.toNat) (c : Cursor) : Rested count (rest limits count b c) := by
  generalize hk : count.toNat - b.groups.length = k
  induction k generalizing b c with
  | zero =>
    have hready : rest limits count b c = .ready () b 0 := by
      rw [rest_run, hk]
      rfl
    have hall : b.groups.length = count.toNat := by omega
    rw [hready]
    exact ⟨hcount, hle, iff_of_true ⟨0, rfl⟩ hall⟩
  | succ k ih =>
    have hlt : b.groups.length < count.toNat := by omega
    have hkeep := keeps_group limits b c
    rw [rest_of_lt limits hlt]
    cases hc : group limits b c with
    | ready _ t n =>
      have hlength := length_of_group limits hc
      rw [hc] at hkeep
      rw [bind_of_ready _ hc]
      exact (ih (b := t) (hkeep.trans hcount) (by omega) (c.drop n) (by omega)).after n
    | paused t n =>
      obtain ⟨rfl, rfl⟩ := eq_of_group_paused limits hc
      rw [bind_of_paused _ hc]
      exact ⟨hcount, hle, iff_of_false nofun (Nat.ne_of_lt hlt)⟩
    | failed e t n =>
      rw [hc] at hkeep
      rw [bind_of_failed _ hc]
      have hlt' : t.groups.length < count.toNat := by rwa [groups_of_group_failed limits hc]
      exact ⟨hkeep.trans hcount, Nat.le_of_lt hlt', iff_of_false nofun (Nat.ne_of_lt hlt')⟩

theorem Rested.valid {count : UInt32} {pass : Pass LocalsBuilder Unit} (h : Rested count pass) :
    Valid pass.state := by
  unfold Valid
  rw [h.groupCount]
  exact h.length_le

theorem Rested.freezes_iff {count : UInt32} {pass : Pass LocalsBuilder Unit} (h : Rested count pass) :
    Freezes freeze pass.state ↔ ∃ n, pass = .ready () pass.state n := by
  rw [LocalsBuilder.freezes_iff, h.ready_iff, h.groupCount]
  simp

/-- A pass ends before the count is known, or among the groups. -/
theorem builder_cases {b : LocalsBuilder} (hvalid : Valid b) (c : Cursor) :
    ((builder limits b c).state = b ∧ b.groupCount = none ∧
      ∀ t n, builder limits b c ≠ .ready () t n) ∨ ∃ count, Rested count (builder limits b c) := by
  cases hb : b.groupCount with
  | some count =>
    have hle : b.groups.length ≤ count.toNat := by simpa only [Valid, hb] using hvalid
    rw [builder_of_some limits hb]
    exact .inr ⟨count, rested_rest limits hb hle c⟩
  | none =>
    have hgroups : b.groups = [] := by simpa only [Valid, hb] using hvalid
    rw [builder_of_none limits hb]
    cases Reader.u32 c with
    | done count n =>
      have hle : b.groups.length ≤ count.toNat := by simp [hgroups]
      have hrest := rested_rest limits (b := { b with groupCount := some count }) rfl hle (c.drop n)
      exact .inr ⟨count, hrest.after n⟩
    | needMore => exact .inl ⟨rfl, rfl, nofun⟩
    | fail e => exact .inl ⟨rfl, rfl, nofun⟩

theorem completes : Completes (builder limits) freeze Valid where
  resumable := resumable_builder limits
  valid {b} hvalid c := by
    obtain ⟨hstate, -⟩ | ⟨count, hrested⟩ := builder_cases limits hvalid c
    · rwa [hstate]
    · exact hrested.valid
  ready {b c t n} hvalid h := by
    obtain ⟨-, -, hready⟩ | ⟨count, hrested⟩ := builder_cases limits hvalid c
    · exact absurd h (hready t n)
    · rw [h] at hrested
      exact hrested.freezes_iff.mpr ⟨n, rfl⟩
  again {b entry} h c := by
    obtain ⟨count, hcount, hlength⟩ := freezes_iff.mp ⟨entry, h⟩
    rw [builder_of_some limits hcount, rest_run, hlength, Nat.sub_self]
    rfl
  failed {b c e t n} hvalid h := by
    obtain ⟨hstate, hnone, -⟩ | ⟨count, hrested⟩ := builder_cases limits hvalid c
    · rw [h] at hstate
      obtain rfl : t = b := hstate
      rw [freezes_iff, hnone]
      simp
    · rw [h] at hrested
      intro hfreezes
      obtain ⟨n', hready⟩ := hrested.freezes_iff.mp hfreezes
      cases hready

/-- What a fresh builder has used when it is ready is a form of its locals. -/
theorem form_of_ready {b : LocalsBuilder} {c : Cursor} {n : Nat} {locals : List ValueType}
    (h : builder limits {} c = .ready () b n) (hfreeze : b.freeze = .ok locals) :
    n ≤ c.rest.length ∧ Form limits locals (c.rest.take n) := by
  obtain ⟨hn, groups, hgroups, hle, hb⟩ := (reads_builder limits c _ _).mp (ready_iff.mp h)
  obtain rfl : b = complete groups := hb
  rw [freeze_complete hgroups.length_lt] at hfreeze
  cases hfreeze
  exact ⟨hn, groups, hgroups, rfl, hle⟩

end LocalsBuilder
end WasmStream
