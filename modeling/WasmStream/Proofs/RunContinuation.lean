import WasmStream.Proofs.Continuation

/-! Whole runs of the decoder, cut and taken up again. -/
namespace WasmStream
namespace Decoder
variable {d d' : Decoder} {c : Cursor} {e : Error} {n : Nat}

/-- The end of a run, seen from `n` bytes further back. -/
def shift (n : Nat) (r : Except Error Unit × Decoder × Nat) : Except Error Unit × Decoder × Nat :=
  (r.1, r.2.1, n + r.2.2)

theorem shift_shift (m n : Nat) (r : Except Error Unit × Decoder × Nat) :
    shift m (shift n r) = shift (m + n) r := by simp only [shift, Nat.add_assoc]

theorem run_of_ready (h : d.step c = .ready () d' n) (used : Nat) :
    d.run used c = d'.run (used + n) (c.drop n) := by
  rw [run.eq_def]
  split
  · next h' => rw [h] at h'; cases h'; rfl
  · next h' => rw [h] at h'; cases h'
  · next h' => rw [h] at h'; cases h'

theorem run_of_paused (h : d.step c = .paused d' n) (used : Nat) :
    d.run used c = (.ok (), d', used + n) := by
  rw [run.eq_def]
  split
  · next h' => rw [h] at h'; cases h'
  · next h' => rw [h] at h'; cases h'; rfl
  · next h' => rw [h] at h'; cases h'

theorem run_of_failed (h : d.step c = .failed e d' n) (used : Nat) :
    d.run used c = (.error e, d', used + n) := by
  rw [run.eq_def]
  split
  · next h' => rw [h] at h'; cases h'
  · next h' => rw [h] at h'; cases h'
  · next h' => rw [h] at h'; cases h'; rfl

/-- What was used before is only added. -/
theorem run_used (d : Decoder) (used : Nat) (c : Cursor) : d.run used c = shift used (d.run 0 c) := by
  cases h : d.step c with
  | ready a d' n =>
    rw [run_of_ready h, run_of_ready h, run_used d' (used + n), run_used d' (0 + n), shift_shift,
      Nat.zero_add]
  | paused d' n => rw [run_of_paused h, run_of_paused h, shift, Nat.zero_add]
  | failed e d' n => rw [run_of_failed h, run_of_failed h, shift, Nat.zero_add]
termination_by measure d c
decreasing_by all_goals exact measure_lt h

theorem run_shift_of_ready (h : d.step c = .ready () d' n) :
    d.run 0 c = shift n (d'.run 0 (c.drop n)) := by
  rw [run_of_ready h, Nat.zero_add, run_used]

/-- What `k` transitions lead to, if so many of them are ready one after the other. -/
def steps? (d : Decoder) (c : Cursor) : (k : Nat) → Option (Decoder × Cursor)
  | 0 => some (d, c)
  | k + 1 =>
    match d.step c with
    | .ready () d' n => steps? d' (c.drop n) k
    | .paused .. | .failed .. => none

theorem steps?_succ_eq_some {k : Nat} {x : Decoder × Cursor} (h : d.steps? c (k + 1) = some x) :
    ∃ d' n, d.step c = .ready () d' n ∧ d'.steps? (c.drop n) k = some x := by
  rw [steps?] at h
  cases hstep : d.step c with
  | ready a d' n => exact ⟨d', n, rfl, by rwa [hstep] at h⟩
  | paused d' n => rw [hstep] at h; cases h
  | failed e d' n => rw [hstep] at h; cases h

/-- A run goes on where its first transitions have led. -/
theorem run_of_steps? {k : Nat} {c' : Cursor} (h : d.steps? c k = some (d', c')) :
    ∃ n, c' = c.drop n ∧ d.run 0 c = shift n (d'.run 0 c') := by
  induction k generalizing d c with
  | zero =>
    cases h
    exact ⟨0, rfl, by simp [shift]⟩
  | succ k ih =>
    obtain ⟨d₁, n, hstep, hrest⟩ := steps?_succ_eq_some h
    obtain ⟨m, rfl, hrun⟩ := ih hrest
    exact ⟨n + m, Cursor.drop_drop c n m, by rw [run_shift_of_ready hstep, hrun, shift_shift]⟩

/-- The transition goes on behind `n` bytes, and so does the run. -/
theorem run_shift_of_after (h : d.step c = (d'.step (c.drop n)).after n) :
    d.run 0 c = shift n (d'.run 0 (c.drop n)) := by
  cases h' : d'.step (c.drop n) with
  | ready a d'' m =>
    rw [h', Pass.after_ready] at h
    rw [run_shift_of_ready h, run_shift_of_ready h', shift_shift, Cursor.drop_drop]
  | paused d'' m =>
    rw [h', Pass.after_paused] at h
    rw [run_of_paused h, run_of_paused h', shift, Nat.zero_add, Nat.zero_add]
  | failed e d'' m =>
    rw [h', Pass.after_failed] at h
    rw [run_of_failed h, run_of_failed h', shift, Nat.zero_add, Nat.zero_add]

section Skip
variable {s : SectionFrame}

theorem run_skip_short (hs : d.state = .skip s) (h : c.offset + c.rest.length < s.stop) :
    d.run 0 c = (.ok (), d, c.rest.length) := by
  have htake : (c.rest.take (s.stop - c.offset)).length = c.rest.length := by
    rw [List.length_take]
    omega
  cases hrest : c.rest with
  | nil =>
    have hstep : d.step c = .paused d 0 := by
      rw [hrest] at h
      simp only [List.length_nil, Nat.add_zero] at h
      simp [step_skip hs, stepSkip, hrest, h]
    rw [run_of_paused hstep]
    rfl
  | cons b rest =>
    have hpos : c.rest.length ≠ 0 := by simp [hrest]
    have hstep : d.step c = .ready () d c.rest.length := by
      rw [step_skip hs]
      simp only [stepSkip, htake, if_pos h, if_neg hpos]
    have hpaused : d.step (c.drop c.rest.length) = .paused d 0 := by
      simp [step_skip hs, stepSkip, h]
    rw [run_shift_of_ready hstep, run_of_paused hpaused, ← hrest]
    rfl

theorem run_skip_long (hs : d.state = .skip s) (h : s.stop ≤ c.offset + c.rest.length) :
    d.run 0 c = shift (s.stop - c.offset)
      ((d.goTo (.sectionEnd s)).run 0 (c.drop (s.stop - c.offset))) :=
  run_shift_of_ready (by rw [step_skip hs, stepSkip_long h])

/-- The pieces of a section that is not interpreted add up. -/
theorem run_skip_append (hs : d.state = .skip s) (h : c.offset + c.rest.length < s.stop)
    (more : List UInt8) :
    d.run 0 (c.append more) = shift c.rest.length (d.run 0 ((c.drop c.rest.length).append more)) := by
  by_cases hmore : c.offset + (c.rest ++ more).length < s.stop
  · rw [run_skip_short hs hmore, run_skip_short (c := (c.drop c.rest.length).append more) hs]
    · simp [shift]
    · simpa [Nat.add_assoc] using hmore
  · rw [List.length_append] at hmore
    have hsum : c.rest.length + (s.stop - (c.offset + c.rest.length)) = s.stop - c.offset := by
      omega
    rw [run_skip_long hs (by simp; omega),
      run_skip_long (c := (c.drop c.rest.length).append more) hs (by simp; omega), shift_shift]
    simp only [Cursor.append_offset, Cursor.drop_offset, hsum]
    rw [← Cursor.drop_append (Nat.le_refl _), Cursor.drop_drop, hsum]

end Skip

/-- What the end of a run of `d` over `c` lets one say of a run over more bytes. -/
def RunContinues (d : Decoder) (c : Cursor) (more : List UInt8) :
    Except Error Unit × Decoder × Nat → Prop
  | (.ok (), d', n) => d.run 0 (c.append more) = shift n (d'.run 0 ((c.drop n).append more))
  | (.error e, d', n) => d.run 0 (c.append more) = (.error e, d', n) ∨
      (d'.PastEnd (c.drop n) e ∧ ∃ e' d'' n', d.run 0 (c.append more) = (.error e', d'', n'))

/-- A transition from `d` to `d'` in front of a run. -/
theorem runContinues_shift {more : List UInt8} {r : Except Error Unit × Decoder × Nat}
    (h : d.run 0 (c.append more) = shift n (d'.run 0 ((c.drop n).append more)))
    (hr : d'.RunContinues (c.drop n) more r) : d.RunContinues c more (shift n r) := by
  obtain ⟨result, d'', m⟩ := r
  cases result with
  | ok =>
    change d'.run 0 ((c.drop n).append more) = _ at hr
    change d.run 0 (c.append more) = _
    rw [h, hr, shift_shift, Cursor.drop_drop]
  | error e =>
    rcases hr with hr | ⟨hpast, e', d''', k, hr⟩
    · exact .inl (by rw [h, hr]; rfl)
    · refine .inr ⟨by rwa [Cursor.drop_drop] at hpast, e', d''', n + k, ?_⟩
      rw [h, hr]
      rfl

/-- A run that has come to its end for lack of input is taken up again by the next one; a run that
has failed stays as it is, unless it stopped inside an entry that reaches past its section. -/
theorem run_append (d : Decoder) (c : Cursor) :
    (d.run 0 c).2.2 ≤ c.rest.length ∧ ∀ more, d.RunContinues c more (d.run 0 c) := by
  by_cases hskip : ∃ s, d.state = .skip s ∧ c.offset + c.rest.length < s.stop
  · obtain ⟨s, hs, hlen⟩ := hskip
    rw [run_skip_short hs hlen]
    exact ⟨Nat.le_refl _, run_skip_append hs hlen⟩
  · have hskip' (s) (hs : d.state = .skip s) : s.stop ≤ c.offset + c.rest.length :=
      Nat.le_of_not_lt fun hlen => hskip ⟨s, hs, hlen⟩
    obtain ⟨hle, hmore⟩ := step_append hskip'
    cases hstep : d.step c with
    | ready a d' n =>
      rw [hstep] at hle hmore
      replace hle : n ≤ c.rest.length := hle
      have ih := run_append d' (c.drop n)
      rw [run_shift_of_ready hstep]
      refine ⟨?_, fun more => runContinues_shift ?_ (ih.2 more)⟩
      · have := ih.1
        simp only [Cursor.drop_rest, List.length_drop] at this
        change n + _ ≤ _
        omega
      · rw [run_shift_of_ready (hmore more), Cursor.drop_append hle]
    | paused d' n =>
      rw [hstep] at hle hmore
      rw [run_of_paused hstep, Nat.zero_add]
      refine ⟨hle, fun more => ?_⟩
      have hcut : (c.append more).drop n = (c.drop n).append more := Cursor.drop_append hle more
      have hafter : d.step (c.append more) = (d'.step ((c.append more).drop n)).after n := by
        rw [hcut]
        exact hmore more
      change d.run 0 (c.append more) = _
      rw [run_shift_of_after hafter, hcut]
    | failed e d' n =>
      rw [hstep] at hle hmore
      rw [run_of_failed hstep, Nat.zero_add]
      refine ⟨hle, fun more => ?_⟩
      rcases hmore more with hsame | ⟨hpast, e', d'', n', hother⟩
      · exact .inl (by rw [run_of_failed hsame, Nat.zero_add])
      · exact .inr ⟨hpast, e', d'', 0 + n', run_of_failed hother 0⟩
termination_by measure d c
decreasing_by all_goals exact measure_lt hstep

end Decoder
end WasmStream
