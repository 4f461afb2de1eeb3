import WasmStream.Proofs.Chunking
import WasmStream.Proofs.BuilderCompletion

/-! Builders under a schedule. Chunks are pushed and the builder is taken up in any order; until a pass
fails it has come as far as one pass over all the bytes would have come, and the pass that fails says
what that one pass says. -/
namespace WasmStream

namespace Builder

/-- What happens to a builder and its stream. -/
inductive Event
  | push (chunk : List UInt8)
  | decode

/-- The bytes that some events add to the stream. -/
def pushed : List Event → List UInt8
  | [] => []
  | .push chunk :: rest => chunk ++ pushed rest
  | .decode :: rest => pushed rest

/-- How often the builder is taken up. -/
def calls : List Event → Nat
  | [] => 0
  | .push _ :: rest => calls rest
  | .decode :: rest => calls rest + 1

section
variable {σ : Type}

/-- One pass of a fresh builder over a buffer. -/
def single (p : Builder σ Unit) (fresh : σ) (bytes : List UInt8) (base : Nat) : Pass σ Unit × Slice :=
  p.run fresh (Slice.ofBytes bytes base)

theorem isReady_after (n : Nat) (pass : Pass σ Unit) : (pass.after n).isReady = pass.isReady := by
  cases pass <;> rfl

theorem eq_failed_of_isReady {pass : Pass σ Unit} {e : Error} (h : pass.isReady = .error e) :
    ∃ t n, pass = .failed e t n := by
  cases pass with
  | failed e' t n =>
    cases h
    exact ⟨t, n, rfl⟩
  | ready a t n => cases h
  | paused t n => cases h

end

/-- A builder on its way, with its stream and the answers that it has given so far. -/
structure Progress (σ : Type) where
  state : σ
  stream : ChunkStream
  answers : List (Except Error Bool)

namespace Progress
variable {σ ε : Type}

/-- The builder and its stream before anything has happened. -/
def start (fresh : σ) (stream : ChunkStream) : Progress σ := ⟨fresh, stream, []⟩

def perform (p : Builder σ Unit) (h : Progress σ) : Event → Progress σ
  | .push chunk => { h with stream := h.stream.push chunk }
  | .decode =>
    let (pass, stream) := p.run h.state h.stream
    ⟨pass.state, stream, h.answers ++ [pass.isReady]⟩

def run (p : Builder σ Unit) (h : Progress σ) (events : List Event) : Progress σ :=
  events.foldl (perform p) h

/-- No pass has failed so far. -/
def Unfailed (h : Progress σ) : Prop := ∀ e, .error e ∉ h.answers

/-- Some pass was ready. -/
def Ready (h : Progress σ) : Prop := .ok true ∈ h.answers

variable {p : Builder σ Unit} {freeze : σ → Except Error ε} {Valid : σ → Prop} {fresh : σ}
variable {c : Cursor} {used : Nat} {h : Progress σ}

theorem perform_decode (h : Progress σ) : h.perform p .decode =
    ⟨(p h.state (Source.ahead h.stream)).state,
      Source.consume h.stream (p h.state (Source.ahead h.stream)).used,
      h.answers ++ [(p h.state (Source.ahead h.stream)).isReady]⟩ := rfl

theorem getLast?_perform_decode (h : Progress σ) : (h.perform p .decode).answers.getLast? =
    some (p h.state (Source.ahead h.stream)).isReady := List.getLast?_concat

theorem run_cons (h : Progress σ) (event : Event) (rest : List Event) :
    h.run p (event :: rest) = (h.perform p event).run p rest := rfl

theorem run_append (h : Progress σ) (events more : List Event) :
    h.run p (events ++ more) = (h.run p events).run p more := List.foldl_append

theorem Unfailed.of_perform {event : Event} (hunfailed : (h.perform p event).Unfailed) :
    h.Unfailed := by
  cases event with
  | push chunk => exact hunfailed
  | decode => exact fun e he => hunfailed e (List.mem_append_left _ he)

theorem Unfailed.of_run {events : List Event} (hunfailed : (h.run p events).Unfailed) :
    h.Unfailed := by
  induction events generalizing h with
  | nil => exact hunfailed
  | cons event rest ih => exact (ih hunfailed).of_perform

theorem Unfailed.pass_ne_failed (hunfailed : (h.perform p .decode).Unfailed) (e : Error) (t : σ)
    (n : Nat) : p h.state (Source.ahead h.stream) ≠ .failed e t n := by
  intro hfailed
  refine hunfailed e (List.mem_append_right _ ?_)
  rw [hfailed]
  exact List.mem_singleton_self _

/-- What is left to the builder in its state, behind `used` bytes of those at `c`, is what is left of one
pass over all of them, and so it will be when there are more. -/
structure InStep (p : Builder σ Unit) (fresh : σ) (c : Cursor) (used : Nat) (h : Progress σ) :
    Prop where
  used_le : used ≤ c.rest.length
  ahead_eq : Source.ahead h.stream = c.drop used
  pass_eq : ∀ more, p fresh (c.append more) = (p h.state ((c.drop used).append more)).after used

namespace InStep

theorem start (p : Builder σ Unit) (fresh : σ) (s : ChunkStream) :
    InStep p fresh (Source.ahead s) 0 (start fresh s) where
  used_le := Nat.zero_le _
  ahead_eq := rfl
  pass_eq _ := (Pass.after_zero _).symm

theorem now (hstep : InStep p fresh c used h) :
    p fresh c = (p h.state (Source.ahead h.stream)).after used := by
  have hnow := hstep.pass_eq []
  rwa [Cursor.append_nil, Cursor.append_nil, ← hstep.ahead_eq] at hnow

theorem push (hstep : InStep p fresh c used h) (chunk : List UInt8) :
    InStep p fresh (c.append chunk) used (h.perform p (.push chunk)) where
  used_le := by
    have hused := hstep.used_le
    rw [Cursor.append_rest, List.length_append]
    omega
  ahead_eq := by
    rw [perform, ChunkStream.ahead_push, hstep.ahead_eq, Cursor.drop_append hstep.used_le]
  pass_eq more := by
    rw [Cursor.drop_append hstep.used_le, Cursor.append_append, Cursor.append_append]
    exact hstep.pass_eq (chunk ++ more)

/-- A pass that has not failed can be cut where it ends. -/
theorem decode (hp : Completes p freeze Valid) (hvalid : Valid h.state)
    (hstep : InStep p fresh c used h) (hunfailed : (h.perform p .decode).Unfailed) :
    InStep p fresh c (used + (p h.state (Source.ahead h.stream)).used) (h.perform p .decode) := by
  obtain ⟨hle, hmore⟩ := hp.resumable h.state (Source.ahead h.stream)
  have hpass := hunfailed.pass_ne_failed
  have hused := hstep.used_le
  rw [hstep.ahead_eq] at hle hmore hpass ⊢
  rw [Cursor.drop_rest, List.length_drop] at hle
  refine ⟨by omega, ?_, fun more => ?_⟩
  · rw [perform_decode, LawfulSource.ahead_consume, hstep.ahead_eq, Cursor.drop_drop]
  · rw [hstep.pass_eq more, hmore more, perform_decode, hstep.ahead_eq]
    cases hc : p h.state (c.drop used) with
    | ready _ t n =>
      obtain ⟨entry, hfreeze⟩ := hp.ready hvalid hc
      simp only [resume_ready, Pass.state, Pass.used, hp.again hfreeze, Pass.after_ready, Nat.add_zero]
    | paused t n =>
      simp only [resume_paused, Pass.state, Pass.used, Pass.after_after, Cursor.drop_drop]
    | failed e t n => exact absurd hc (hpass e t n)

/-- The passes of a schedule are one pass, cut into pieces. -/
theorem run (hp : Completes p freeze Valid) (hvalid : Valid h.state) (hstep : InStep p fresh c used h)
    {events : List Event} (hunfailed : (h.run p events).Unfailed) :
    ∃ used', InStep p fresh (c.append (pushed events)) used' (h.run p events) := by
  induction events generalizing h c used with
  | nil =>
    rw [pushed, Cursor.append_nil]
    exact ⟨used, hstep⟩
  | cons event rest ih =>
    rw [run_cons] at hunfailed ⊢
    cases event with
    | push chunk =>
      rw [pushed, ← Cursor.append_append]
      exact ih (h := h.perform p (.push chunk)) hvalid (hstep.push chunk) hunfailed
    | decode =>
      exact ih (h := h.perform p .decode) (hp.valid hvalid _)
        (hstep.decode hp hvalid hunfailed.of_run) hunfailed

/-- The next pass is the rest of the single pass. -/
theorem resumed (hstep : InStep p fresh c used h) :
    let now := h.perform p .decode
    let whole := single p fresh c.rest c.offset
    now.answers.getLast? = some whole.1.isReady ∧ now.state = whole.1.state ∧
      Source.ahead now.stream = Source.ahead whole.2 := by
  have hwhole : (single p fresh c.rest c.offset).1 = _ := hstep.now
  refine ⟨?_, ?_, ?_⟩
  · rw [getLast?_perform_decode, hwhole, isReady_after]
  · rw [hwhole, Pass.state_after, perform_decode]
  · have hslice : Source.ahead (single p fresh c.rest c.offset).2 =
        c.drop (single p fresh c.rest c.offset).1.used := LawfulSource.ahead_consume _ _
    rw [hslice, hwhole, Pass.used_after, perform_decode, LawfulSource.ahead_consume, hstep.ahead_eq,
      Cursor.drop_drop]

/-- What makes the next pass fail makes the single pass fail, also if more has arrived by then. -/
theorem failed (hp : Completes p freeze Valid) (hstep : InStep p fresh c used h) {e : Error}
    (hlast : (h.perform p .decode).answers.getLast? = some (.error e)) (later : List UInt8) :
    (single p fresh (c.append later).rest c.offset).1.isReady = .error e := by
  rw [getLast?_perform_decode, hstep.ahead_eq, Option.some.injEq] at hlast
  obtain ⟨t, n, hfailed⟩ := eq_failed_of_isReady hlast
  have hlater := (hp.resumable h.state (c.drop used)).2 later
  rw [hfailed, resume_failed] at hlater
  have hwhole : (single p fresh (c.append later).rest c.offset).1 = _ := hstep.pass_eq later
  rw [hwhole, hlater]
  rfl

/-- A builder that can be frozen has taken what the single pass takes until it is ready. -/
theorem ready (hp : Completes p freeze Valid) (hstep : InStep p fresh c used h)
    (hfreezes : Freezes freeze h.state) : p fresh c = .ready () h.state used := by
  obtain ⟨entry, hfreeze⟩ := hfreezes
  rw [hstep.now, hp.again hfreeze]
  rfl

end InStep

section Completes
variable (hp : Completes p freeze Valid)
include hp

theorem valid_run (hvalid : Valid h.state) (events : List Event) : Valid (h.run p events).state := by
  induction events generalizing h with
  | nil => exact hvalid
  | cons event rest ih =>
    cases event with
    | push chunk => exact ih (h := h.perform p (.push chunk)) hvalid
    | decode => exact ih (h := h.perform p .decode) (hp.valid hvalid _)

/-- A pass from a state that can be frozen is ready at once. -/
theorem perform_of_freezes (hfreezes : Freezes freeze h.state) :
    h.perform p .decode = ⟨h.state, h.stream, h.answers ++ [.ok true]⟩ := by
  obtain ⟨entry, hfreeze⟩ := hfreezes
  rw [perform_decode, hp.again hfreeze]
  rfl

/-- What can be frozen stays as it is, and every further pass is ready. -/
theorem run_of_freezes (hfreezes : Freezes freeze h.state) (events : List Event) :
    (h.run p events).state = h.state ∧ Source.offset (h.run p events).stream = Source.offset h.stream ∧
      (h.run p events).answers = h.answers ++ List.replicate (calls events) (.ok true) := by
  induction events generalizing h with
  | nil => exact ⟨rfl, rfl, (List.append_nil _).symm⟩
  | cons event rest ih =>
    rw [run_cons]
    cases event with
    | push chunk => exact ih (h := h.perform p (.push chunk)) hfreezes
    | decode =>
      rw [perform_of_freezes hp hfreezes]
      obtain ⟨hstate, hoffset, hanswers⟩ :=
        ih (h := ⟨h.state, h.stream, h.answers ++ [.ok true]⟩) hfreezes
      refine ⟨hstate, hoffset, hanswers.trans ?_⟩
      rw [calls, List.replicate_succ, List.append_assoc, List.singleton_append]

theorem freezes_perform_iff (hvalid : Valid h.state) (hiff : Freezes freeze h.state ↔ h.Ready)
    (event : Event) :
    Freezes freeze (h.perform p event).state ↔ (h.perform p event).Ready := by
  cases event with
  | push chunk => exact hiff
  | decode =>
    by_cases hfreezes : Freezes freeze h.state
    · rw [perform_of_freezes hp hfreezes]
      exact iff_of_true hfreezes (List.mem_append_right _ (List.mem_singleton_self _))
    · have hnot : .ok true ∉ h.answers := fun hready => hfreezes (hiff.mpr hready)
      rw [perform_decode]
      cases hc : p h.state (Source.ahead h.stream) with
      | ready _ t n =>
        exact iff_of_true (hp.ready hvalid hc) (List.mem_append_right _ (List.mem_singleton_self _))
      | paused t n =>
        exact iff_of_false (hp.paused hc) (by simp [Ready, hnot, Pass.isReady])
      | failed e t n =>
        exact iff_of_false (hp.failed hvalid hc) (by simp [Ready, hnot, Pass.isReady])

/-- A builder can be frozen from its first ready pass on, and not before. -/
theorem freezes_run_iff (hvalid : Valid h.state) (hiff : Freezes freeze h.state ↔ h.Ready)
    (events : List Event) : Freezes freeze (h.run p events).state ↔ (h.run p events).Ready := by
  induction events generalizing h with
  | nil => exact hiff
  | cons event rest ih =>
    exact ih (valid_run hp hvalid [event]) (freezes_perform_iff hp hvalid hiff event)

end Completes
end Progress

section Faithful
variable {σ ε : Type}
open Progress

/-- A builder that can be taken up whenever there is something new on its stream `s`. As long as no pass
fails, a pass over what has come since the last one answers and leaves what a single pass over all the
bytes does. The first pass that fails gives the error of the single pass, which later bytes do not
change. Once a pass was ready all are, and take nothing; what has been taken is a form of the entry that
is frozen. -/
structure Faithful (p : Builder σ Unit) (freeze : σ → Except Error ε) (fresh : σ)
    (Form : Nat → Grammar ε) (s : ChunkStream) : Prop where
  resumed : ∀ events, ((start fresh s).run p (events ++ [.decode])).Unfailed →
    let now := (start fresh s).run p (events ++ [.decode])
    let whole := single p fresh (Source.peek s ++ pushed events) (Source.offset s)
    now.answers.getLast? = some whole.1.isReady ∧ now.state = whole.1.state ∧
      Source.ahead now.stream = Source.ahead whole.2
  failed : ∀ events e, ((start fresh s).run p events).Unfailed →
    ((start fresh s).run p (events ++ [.decode])).answers.getLast? = some (.error e) →
    ∀ later, (single p fresh (Source.peek s ++ pushed events ++ later) (Source.offset s)).1.isReady =
      .error e
  stays : ∀ events more, ((start fresh s).run p events).Ready →
    let now := (start fresh s).run p events
    let after := (start fresh s).run p (events ++ more)
    after.state = now.state ∧ Source.offset after.stream = Source.offset now.stream ∧
      after.answers = now.answers ++ List.replicate (calls more) (.ok true)
  own : ∀ events, ((start fresh s).run p events).Unfailed → ((start fresh s).run p events).Ready →
    let now := (start fresh s).run p events
    let bytes := Source.peek s ++ pushed events
    ∃ entry n, freeze now.state = .ok entry ∧ n ≤ bytes.length ∧
      Form (Source.offset s) entry (bytes.take n) ∧
      Source.offset now.stream = Source.offset s + n ∧ Source.peek now.stream = bytes.drop n
  frozen : ∀ events, (∃ entry, freeze ((start fresh s).run p events).state = .ok entry) ↔
    ((start fresh s).run p events).Ready

variable {p : Builder σ Unit} {freeze : σ → Except Error ε} {Valid : σ → Prop} {fresh : σ}
variable {Form : Nat → Grammar ε}

theorem faithful_of_completes (hp : Completes p freeze Valid) (hfresh : Valid fresh)
    (hopen : ¬Freezes freeze fresh)
    (hform : ∀ {c t n entry}, p fresh c = .ready () t n → freeze t = .ok entry →
      n ≤ c.rest.length ∧ Form c.offset entry (c.rest.take n)) (s : ChunkStream) :
    Faithful p freeze fresh Form s := by
  have hstep (events : List Event) (hunfailed : ((start fresh s).run p events).Unfailed) :=
    (InStep.start p fresh s).run hp hfresh hunfailed
  have hfrozen (events : List Event) : Freezes freeze ((start fresh s).run p events).state ↔
      ((start fresh s).run p events).Ready :=
    freezes_run_iff hp hfresh (iff_of_false hopen List.not_mem_nil) events
  exact {
    resumed := fun events hunfailed => by
      rw [run_append] at hunfailed ⊢
      obtain ⟨used, h⟩ := hstep events hunfailed.of_run
      exact h.resumed
    failed := fun events e hunfailed hlast later => by
      rw [run_append] at hlast
      obtain ⟨used, h⟩ := hstep events hunfailed
      exact h.failed hp hlast later
    stays := fun events more hready => by
      rw [run_append]
      exact run_of_freezes hp ((hfrozen events).mpr hready) more
    own := fun events hunfailed hready => by
      obtain ⟨used, h⟩ := hstep events hunfailed
      obtain ⟨entry, hfreeze⟩ := (hfrozen events).mpr hready
      obtain ⟨hused, hentry⟩ := hform (h.ready hp ⟨entry, hfreeze⟩) hfreeze
      exact ⟨entry, used, hfreeze, hused, hentry, congrArg Cursor.offset h.ahead_eq,
        congrArg Cursor.rest h.ahead_eq⟩
    frozen := hfrozen }

/-- The form is the one that the reader of the entry reads, wherever it begins. -/
theorem faithful_of_reads {r : Reader ε} {G : Grammar ε} (hp : Completes p freeze fun _ => True)
    (hopen : ¬Freezes freeze fresh)
    (hharvest : atOnce (harvest p freeze fresh) fresh = r >>= fun entry => pure (entry, fresh))
    (hreads : r.Reads G) (s : ChunkStream) : Faithful p freeze fresh (fun _ => G) s := by
  refine faithful_of_completes hp trivial hopen (fun {c t n entry} h hfreeze => ?_) s
  exact (hreads c entry n).mp (reader_of_ready hharvest h hfreeze)

end Faithful
end Builder
open Builder

/-- The entries that are put together from fields, with their builders and what these come to. -/
inductive Assembly : Type → Type → Type 1
  | global : Assembly GlobalBuilder Global
  | data : Assembly DataBuilder DataSegment
  | locals : Assembly LocalsBuilder (List ValueType)
  | code : Assembly CodeBuilder CodeBody
  | imports : Assembly ImportBuilder Import
  | exports : Assembly ExportBuilder Export
  | custom (sectionEnd : Nat) : Assembly CustomBuilder CustomSection

namespace Assembly
variable {σ ε : Type}

def builder (limits : DecoderLimits) : Assembly σ ε → Builder σ Unit
  | global => GlobalBuilder.builder limits
  | data => DataBuilder.builder limits
  | locals => LocalsBuilder.builder limits
  | code => CodeBuilder.builder limits
  | imports => ImportBuilder.builder limits
  | exports => ExportBuilder.builder limits
  | custom sectionEnd => CustomBuilder.builder limits sectionEnd

def freeze : Assembly σ ε → σ → Except Error ε
  | global => GlobalBuilder.freeze
  | data => DataBuilder.freeze
  | locals => LocalsBuilder.freeze
  | code => CodeBuilder.freeze
  | imports => ImportBuilder.freeze
  | exports => ExportBuilder.freeze
  | custom _ => CustomBuilder.freeze

def fresh : Assembly σ ε → σ
  | global => {}
  | data => {}
  | locals => {}
  | code => {}
  | imports => {}
  | exports => {}
  | custom _ => {}

/-- The written form of an entry that begins at the offset `start`. -/
def Form (limits : DecoderLimits) : Assembly σ ε → (start : Nat) → Grammar ε
  | global, _ => Global.Form limits
  | data, _ => DataSegment.Form limits
  | locals, _ => LocalsBuilder.Form limits
  | code, _ => CodeBody.Form limits
  | imports, _ => Import.Form limits
  | exports, _ => Export.Form limits
  | custom sectionEnd, start => fun s w =>
    start + w.length = sectionEnd ∧ CustomSection.Form limits s w

theorem not_freezes_fresh (a : Assembly σ ε) : ¬Freezes a.freeze a.fresh := by
  rintro ⟨entry, h⟩
  cases a <;> cases h

/-- However its input arrives and however often it is taken up, each builder is faithful to the single
pass over that input. -/
theorem faithful (a : Assembly σ ε) (limits : DecoderLimits) (s : ChunkStream) :
    Faithful (a.builder limits) a.freeze a.fresh (a.Form limits) s := by
  have hopen := a.not_freezes_fresh
  cases a with
  | global =>
    exact faithful_of_reads (GlobalBuilder.completes limits) hopen
      (GlobalBuilder.atOnce_harvest limits) (Global.reads_reader limits) s
  | data =>
    exact faithful_of_reads (DataBuilder.completes limits) hopen
      (DataBuilder.atOnce_harvest limits) (DataSegment.reads_reader limits) s
  | locals =>
    exact faithful_of_completes (LocalsBuilder.completes limits) LocalsBuilder.valid_fresh hopen
      (fun h hfreeze => LocalsBuilder.form_of_ready limits h hfreeze) s
  | code =>
    exact faithful_of_reads (CodeBuilder.completes limits) hopen
      (CodeBuilder.atOnce_harvest limits) (CodeBody.reads_reader limits) s
  | imports =>
    exact faithful_of_reads (ImportBuilder.completes limits) hopen
      (ImportBuilder.atOnce_harvest limits) (Import.reads_reader limits) s
  | exports =>
    exact faithful_of_reads (ExportBuilder.completes limits) hopen
      (ExportBuilder.atOnce_harvest limits) (Export.reads_reader limits) s
  | custom sectionEnd =>
    refine faithful_of_completes (CustomBuilder.completes limits sectionEnd) trivial hopen
      (fun {c t n entry} h hfreeze => ?_) s
    have hreader := reader_of_ready (CustomBuilder.atOnce_harvest limits sectionEnd) h hfreeze
    obtain ⟨hend, hn, hform⟩ := (CustomSection.reader_eq_done_iff limits).mp hreader
    exact ⟨hn, by rwa [List.length_take_of_le hn], hform⟩

end Assembly
end WasmStream
