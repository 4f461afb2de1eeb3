import WasmStream.Proofs.Stability

/-! Written forms. A grammar says which byte strings are a written form of a value, a value may have
several; a reader is exact for it when it finds a value if and only if the bytes ahead begin with a
written form of that value, and uses that form and no more. -/
namespace WasmStream

abbrev Grammar (α : Type) : Type := α → List UInt8 → Prop

namespace Grammar
variable {α β : Type}

/-- A form of a value, and behind it a form that may depend on that value. -/
def Then (G : Grammar α) (H : α → Grammar β) : Grammar β :=
  fun b w => ∃ a u v, G a u ∧ H a b v ∧ w = u ++ v

/-- A form of `a`, taken as a form of `f a`. -/
def Image (f : α → β) (G : Grammar α) : Grammar β := fun b w => ∃ a, b = f a ∧ G a w

theorem image_image_iff {γ : Type} {f : β → γ} {g : α → β} {G : Grammar α} {c : γ} {w : List UInt8} :
    Image f (Image g G) c w ↔ ∃ a, c = f (g a) ∧ G a w := by
  constructor
  · rintro ⟨_, rfl, a, rfl, ha⟩
    exact ⟨a, rfl, ha⟩
  · rintro ⟨a, rfl, ha⟩
    exact ⟨g a, rfl, a, rfl, ha⟩

/-- Forms of the values, one behind the other. -/
inductive Many (G : Grammar α) : Grammar (List α)
  | nil : Many G [] []
  | cons {a : α} {rest : List α} {u v : List UInt8} : G a u → Many G rest v →
      Many G (a :: rest) (u ++ v)

theorem many_nil_iff {G : Grammar α} {w : List UInt8} : Many G [] w ↔ w = [] := by
  constructor
  · intro h
    cases h
    rfl
  · rintro rfl
    exact .nil

theorem many_cons_iff {G : Grammar α} {a : α} {rest : List α} {w : List UInt8} :
    Many G (a :: rest) w ↔ ∃ u v, G a u ∧ Many G rest v ∧ w = u ++ v := by
  constructor
  · intro h
    cases h with
    | cons ha hrest => exact ⟨_, _, ha, hrest, rfl⟩
  · rintro ⟨u, v, ha, hrest, rfl⟩
    exact .cons ha hrest

theorem Many.append {G : Grammar α} {l l' : List α} {u v : List UInt8} (h : Many G l u)
    (h' : Many G l' v) : Many G (l ++ l') (u ++ v) := by
  induction h with
  | nil => exact h'
  | cons ha hrest ih =>
    rw [List.append_assoc]
    exact .cons ha ih

/-- One form for each value. -/
theorem many_flatMap {G : Grammar α} {form : α → List UInt8} {l : List α}
    (h : ∀ a ∈ l, G a (form a)) : Many G l (l.flatMap form) := by
  induction l with
  | nil => exact .nil
  | cons a rest ih =>
    rw [List.flatMap_cons]
    exact .cons (h a (by simp)) (ih fun b hb => h b (by simp [hb]))

end Grammar

namespace Reader
open Grammar
variable {α β : Type} {r : Reader α} {G H : Grammar α}

def Reads (r : Reader α) (G : Grammar α) : Prop :=
  ∀ c a n, r c = .done a n ↔ n ≤ c.rest.length ∧ G a (c.rest.take n)

theorem Reads.of_iff (h : Reads r G) (hGH : ∀ a w, G a w ↔ H a w) : Reads r H := by
  intro c a n
  rw [h c a n, hGH]

/-- A form with any bytes behind it. -/
theorem Reads.complete (h : Reads r G) {a : α} {w rest : List UInt8} (ha : G a w) (offset : Nat) :
    r ⟨offset, w ++ rest⟩ = .done a w.length := by
  rw [h]
  refine ⟨by simp, ?_⟩
  simpa using ha

/-- A reader that finds forms only, and every form whatever stands behind it. -/
theorem reads_of (hsound : ∀ {c a n}, r c = .done a n → n ≤ c.rest.length ∧ G a (c.rest.take n))
    (hcomplete : ∀ {a w}, G a w → ∀ offset rest, r ⟨offset, w ++ rest⟩ = .done a w.length) :
    Reads r G := by
  intro c a n
  refine ⟨hsound, fun ⟨hn, ha⟩ => ?_⟩
  have h := hcomplete ha c.offset (c.rest.drop n)
  rw [List.take_append_drop, List.length_take_of_le hn] at h
  exact h

theorem reads_pure (a : α) : Reads (pure a) fun b w => b = a ∧ w = [] := by
  intro c b n
  rw [pure_run]
  constructor
  · intro h
    cases h
    exact ⟨Nat.zero_le _, rfl, rfl⟩
  · rintro ⟨hn, rfl, hw⟩
    rw [List.take_eq_nil_iff] at hw
    rcases hw with rfl | hnil
    · rfl
    · rw [hnil] at hn
      obtain rfl : n = 0 := Nat.le_zero.1 hn
      rfl

theorem reads_fail (error : Error) : Reads (fail error : Reader α) fun _ _ => False := by
  intro c a n
  simp [fail]

/-- Where the reader stands matters to its errors alone. -/
theorem Reads.offset {f : Nat → Reader α} (h : ∀ start, Reads (f start) G) :
    Reads (Reader.offset >>= f) G := by
  intro c a n
  rw [← h c.offset c a n, bind_eq_done]
  constructor
  · rintro ⟨start, k, m, hstart, hf, rfl⟩
    cases hstart
    rwa [Nat.zero_add]
  · intro hf
    exact ⟨c.offset, 0, n, rfl, hf, (Nat.zero_add n).symm⟩

theorem reads_byte : Reads byte fun b w => w = [b] := by
  intro c b n
  unfold byte
  cases hc : c.rest with
  | nil => simp
  | cons b' rest =>
    cases n with
    | zero => simp
    | succ n => simp [List.take_eq_nil_iff]; grind

theorem reads_bytes (k : Nat) : Reads (bytes k) fun found w => found.length = k ∧ w = found := by
  intro c found n
  simp only [bytes]
  split
  · next hk =>
    simp only [List.length_take] at hk
    constructor
    · intro h
      cases h
      exact ⟨by omega, by simp; omega, rfl⟩
    · rintro ⟨hn, hlen, rfl⟩
      rw [List.length_take_of_le hn] at hlen
      rw [hlen]
  · next hk =>
    refine ⟨fun h => (by cases h), ?_⟩
    rintro ⟨hn, hlen, rfl⟩
    rw [List.length_take_of_le hn] at hlen
    subst hlen
    exact absurd (List.length_take_of_le hn) hk

/-- The second reader reads on behind the form that the first one has found. -/
theorem Reads.bind_of {f : α → Reader β} {K : α → Grammar β} (hr : Reads r G)
    (hf : ∀ a u, G a u → Reads (f a) (K a)) : Reads (r >>= f) (G.Then K) := by
  refine reads_of (fun {c b k} h => ?_) fun {b w} h offset rest => ?_
  · obtain ⟨a, n, m, ha, hb, rfl⟩ := bind_eq_done.mp h
    obtain ⟨hn, hG⟩ := (hr c a n).mp ha
    obtain ⟨hm, hK⟩ := (hf a _ hG (c.drop n) b m).mp hb
    simp only [Cursor.drop_rest, List.length_drop] at hm
    exact ⟨by omega, a, _, _, hG, hK, List.take_add⟩
  · obtain ⟨a, u, v, hG, hK, rfl⟩ := h
    rw [List.append_assoc]
    refine bind_eq_done.mpr ⟨a, u.length, v.length, hr.complete hG offset, ?_, by simp⟩
    have hdrop : (Cursor.mk offset (u ++ (v ++ rest))).drop u.length =
        ⟨offset + u.length, v ++ rest⟩ := by
      simp [Cursor.drop]
    rw [hdrop]
    exact (hf a u hG).complete hK _

theorem Reads.bind {f : α → Reader β} {K : α → Grammar β} (hr : Reads r G)
    (hf : ∀ a, Reads (f a) (K a)) : Reads (r >>= f) (G.Then K) := hr.bind_of fun a _ _ => hf a

theorem map_eq_done {f : α → β} {c : Cursor} {b : β} {n : Nat} :
    (r >>= fun a => pure (f a)) c = .done b n ↔ ∃ a, r c = .done a n ∧ b = f a := by
  rw [bind_eq_done]
  constructor
  · rintro ⟨a, k, m, hr, hpure, rfl⟩
    cases hpure
    exact ⟨a, hr, rfl⟩
  · rintro ⟨a, hr, rfl⟩
    exact ⟨a, n, 0, hr, rfl, rfl⟩

theorem Reads.map {f : α → β} {K : Grammar β} (hr : Reads r G)
    (h : ∀ b w, K b w ↔ ∃ a, b = f a ∧ G a w) : Reads (r >>= fun a => pure (f a)) K := by
  refine (hr.bind fun a => reads_pure (f a)).of_iff fun b w => ?_
  rw [h]
  constructor
  · rintro ⟨a, u, v, hG, ⟨rfl, rfl⟩, rfl⟩
    exact ⟨a, rfl, by rwa [List.append_nil]⟩
  · rintro ⟨a, rfl, hG⟩
    exact ⟨a, w, [], hG, ⟨rfl, rfl⟩, (List.append_nil w).symm⟩

theorem Reads.image (hr : Reads r G) (f : α → β) :
    Reads (r >>= fun a => pure (f a)) (Image f G) := hr.map fun _ _ => Iff.rfl

theorem Reads.times (hr : Reads r G) (n : Nat) :
    Reads (times r n) fun l w => l.length = n ∧ Many G l w := by
  induction n with
  | zero =>
    refine (reads_pure []).of_iff fun l w => ?_
    constructor
    · rintro ⟨rfl, rfl⟩
      exact ⟨rfl, .nil⟩
    · rintro ⟨hl, hw⟩
      obtain rfl := List.length_eq_zero_iff.mp hl
      exact ⟨rfl, many_nil_iff.mp hw⟩
  | succ n ih =>
    refine (hr.bind fun a => ih.bind fun rest => reads_pure (a :: rest)).of_iff fun l w => ?_
    constructor
    · rintro ⟨a, u, v, ha, ⟨rest, v₁, v₂, ⟨hlen, hrest⟩, ⟨rfl, rfl⟩, rfl⟩, rfl⟩
      rw [List.append_nil]
      exact ⟨by simp [hlen], .cons ha hrest⟩
    · rintro ⟨hl, hw⟩
      cases hw with
      | nil => cases hl
      | cons ha hrest =>
        exact ⟨_, _, _, ha, ⟨_, _, [], ⟨Nat.succ.inj hl, hrest⟩, ⟨rfl, rfl⟩,
          (List.append_nil _).symm⟩, rfl⟩

end Reader
end WasmStream
