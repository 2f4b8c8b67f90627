import Ferrumnet.Lib.Run
import Ferrumnet.Bbr

/-
  The windowed-max filter against the maximum of a window.

  A reset makes the three candidates one (`Single`), and from then on a smaller value
  replaces none of them: the filter holds a single sample, and gives it up for the newest
  one when it expires. What it returns always lies in the window; whether it is the
  largest value there is decided at the expiries alone.

  1. `Single.update` — what an update does to the one sample.
  2. `Held.feed` — the sample held and the samples fed.
  3. `windowed_max` — when every update returns the maximum.
-/

namespace Ferrumnet

namespace WindowedMax

/-- The samples that are at most `window` older than `t`. -/
def inWindow (window t : Nat) (xs : List MaxSample) : List MaxSample := xs.filter fun y => t - y.t ≤ window

/-- The largest value of a list. -/
def largest (xs : List MaxSample) : Nat := (xs.map (·.v)).foldr max 0

/-- The filter, and all it was fed. -/
structure Fed where
  filter : WindowedMax
  past : List MaxSample
  deriving DecidableEq

namespace Fed

def new (window : Nat) : Fed := ⟨WindowedMax.new window, []⟩

/-- One sample. -/
def feed (f : Fed) (x : MaxSample) : Fed := ⟨f.filter.update x.t x.v, f.past ++ [x]⟩

def step (f : Fed) (x : MaxSample) : Option Fed := some (f.feed x)

/-- Times are `u64` and do not decrease, and values are positive. -/
def Ordered (f : Fed) (x : MaxSample) : Prop :=
  (∀ y ∈ f.past, y.t ≤ x.t) ∧ x.t < 18446744073709551616 ∧ 0 < x.v

/-- The update returns the largest value of the window. -/
def Exact (f : Fed) (x : MaxSample) : Prop :=
  (f.feed x).filter.s0.v = largest (inWindow f.filter.window x.t (f.past ++ [x]))

/-- If the oldest candidate has expired, no sample still in the window exceeds the new one. -/
def Timely (f : Fed) (x : MaxSample) : Prop :=
  f.filter.window < wrappingSub x.t f.filter.s2.t →
    ∀ y ∈ inWindow f.filter.window x.t f.past, y.v ≤ x.v

instance (f : Fed) (x : MaxSample) : Decidable (f.Ordered x) := inferInstanceAs (Decidable (_ ∧ _ ∧ _))

instance (f : Fed) (x : MaxSample) : Decidable (f.Exact x) := inferInstanceAs (Decidable (_ = _))

instance (f : Fed) (x : MaxSample) : Decidable (f.Timely x) := inferInstanceAs (Decidable (_ → _))

end Fed

/-! ## One sample -/

variable {f : WindowedMax} {t v : Nat}

/-- The three candidates are one. -/
def Single (f : WindowedMax) : Prop := f.s1 = f.s0 ∧ f.s2 = f.s0

/-- A smaller value is forgotten while the sample lasts. -/
theorem Single.update (h : f.Single) (t v : Nat) :
    f.update t v = if v ≥ f.s0.v ∨ f.window < wrappingSub t f.s0.t then f.reset t v else f := by
  obtain ⟨h1, h2⟩ := h
  simp only [WindowedMax.update, h2, Bool.or_eq_true, decide_eq_true_eq, gt_iff_lt]
  split
  · rfl
  · rename_i hno
    obtain ⟨hv, ht⟩ := not_or.mp hno
    have hreplace : f.replace t v = f := by
      rw [replace, if_neg (by rw [h1]; exact hv), if_neg (by rw [h2]; exact hv)]
    rw [hreplace, expire, if_neg ht]

theorem single_reset (f : WindowedMax) (t v : Nat) : (f.reset t v).Single := ⟨rfl, rfl⟩

theorem wrappingSub_eq {a b : Nat} (h : b ≤ a) (ha : a < 18446744073709551616) : wrappingSub a b = a - b := by
  have hsum : a + (18446744073709551616 - b) = a - b + 18446744073709551616 := by omega
  rw [wrappingSub, hsum, Nat.add_mod_right, Nat.mod_eq_of_lt (by omega)]

/-! ## The samples fed -/

theorem le_largest {xs : List MaxSample} {y : MaxSample} (h : y ∈ xs) : y.v ≤ largest xs := by
  induction xs with
  | nil => cases h
  | cons x xs ih =>
    change y.v ≤ max x.v (largest xs)
    rcases List.mem_cons.mp h with rfl | h
    · exact le_max_left ..
    · exact (ih h).trans (le_max_right ..)

theorem largest_le {xs : List MaxSample} {n : Nat} (h : ∀ y ∈ xs, y.v ≤ n) : largest xs ≤ n := by
  induction xs with
  | nil => exact Nat.zero_le n
  | cons x xs ih => exact max_le (h x List.mem_cons_self) (ih fun y hy => h y (List.mem_cons_of_mem x hy))

theorem mem_inWindow {window t : Nat} {xs : List MaxSample} {y : MaxSample} :
    y ∈ inWindow window t xs ↔ y ∈ xs ∧ t - y.t ≤ window := by
  rw [inWindow, List.mem_filter, decide_eq_true_eq]

/-- What is held is one of the samples fed, and in the window of the newest. -/
structure Held (f : Fed) : Prop where
  single : f.filter.Single
  /-- Nothing has been fed, or what is held has. -/
  member : f.past = [] ∧ f.filter.s0 = ⟨0, 0⟩ ∨ f.filter.s0 ∈ f.past
  /-- It had not expired at the newest sample. -/
  recent : ∀ y ∈ f.past, y.t - f.filter.s0.t ≤ f.filter.window

theorem held_new (window : Nat) : Held (Fed.new window) :=
  ⟨⟨rfl, rfl⟩, .inl ⟨rfl, rfl⟩, fun _ hy => absurd hy List.not_mem_nil⟩

variable {g : Fed} {x : MaxSample}

theorem Held.le_time (h : Held g) (hx : g.Ordered x) : g.filter.s0.t ≤ x.t := by
  rcases h.member with ⟨-, hnew⟩ | hmem
  · rw [hnew]
    exact Nat.zero_le _
  · exact hx.1 _ hmem

/-- What is returned is the new value, or the one held, which is larger and in the window. -/
theorem Held.feed_cases (h : Held g) (hx : g.Ordered x) :
    ((g.feed x).filter = g.filter.reset x.t x.v ∧
      (g.filter.s0.v ≤ x.v ∨ g.filter.window < x.t - g.filter.s0.t)) ∨
    ((g.feed x).filter = g.filter ∧ x.v < g.filter.s0.v ∧ x.t - g.filter.s0.t ≤ g.filter.window) := by
  have hsub := wrappingSub_eq (h.le_time hx) hx.2.1
  have hup := h.single.update x.t x.v
  rw [hsub] at hup
  by_cases hc : x.v ≥ g.filter.s0.v ∨ g.filter.window < x.t - g.filter.s0.t
  · rw [if_pos hc] at hup
    exact .inl ⟨hup, hc⟩
  · rw [if_neg hc] at hup
    obtain ⟨hv, ht⟩ := not_or.mp hc
    exact .inr ⟨hup, Nat.not_le.mp hv, Nat.not_lt.mp ht⟩

theorem Held.feed (h : Held g) (hx : g.Ordered x) : Held (g.feed x) := by
  have hmem : x ∈ (g.feed x).past := List.mem_append_right _ List.mem_cons_self
  have hsplit : ∀ y ∈ (g.feed x).past, y ∈ g.past ∨ y = x := by
    intro y hy
    rcases List.mem_append.mp hy with hy | hy
    · exact .inl hy
    · exact .inr (List.mem_singleton.mp hy)
  rcases h.feed_cases hx with ⟨hreset, -⟩ | ⟨hsame, hlt, hin⟩
  · refine ⟨?_, .inr ?_, fun y hy => ?_⟩
    · rw [hreset]
      exact single_reset ..
    · rw [hreset]
      exact hmem
    · rw [hreset]
      have hle : y.t ≤ x.t := by
        rcases hsplit y hy with hy | rfl
        · exact hx.1 y hy
        · exact le_rfl
      change y.t - x.t ≤ g.filter.window
      omega
  · refine ⟨?_, ?_, fun y hy => ?_⟩
    · rw [hsame]
      exact h.single
    · rw [hsame]
      rcases h.member with ⟨-, hnew⟩ | hheld
      · rw [hnew] at hlt
        exact absurd hlt (Nat.not_lt_zero _)
      · exact .inr (List.mem_append_left _ hheld)
    · rw [hsame]
      rcases hsplit y hy with hy | rfl
      · exact h.recent y hy
      · exact hin

/-- The value returned is that of a sample in the window. -/
theorem Held.within (h : Held g) (hx : g.Ordered x) : (g.feed x).filter.s0 ∈
    inWindow g.filter.window x.t (g.past ++ [x]) := by
  have hnew : x ∈ g.past ++ [x] := List.mem_append_right _ List.mem_cons_self
  rcases h.feed_cases hx with ⟨hreset, -⟩ | ⟨hsame, hlt, hin⟩
  · rw [hreset, mem_inWindow]
    exact ⟨hnew, by change x.t - x.t ≤ _; omega⟩
  · rw [hsame, mem_inWindow]
    refine ⟨List.mem_append_left _ (h.member.resolve_left fun hnone => ?_), hin⟩
    rw [hnone.2] at hlt
    exact Nat.not_lt_zero _ hlt

/-- As long as no larger sample has been forgotten. -/
def Topped (f : Fed) : Prop :=
  ∀ y ∈ f.past, (∀ z ∈ f.past, z.t - y.t ≤ f.filter.window) → y.v ≤ f.filter.s0.v

/-- A sample in the window of the next sample was in the window of those before. -/
theorem Topped.le (ht : Topped g) (hx : g.Ordered x) {y : MaxSample} (hy : y ∈ inWindow g.filter.window x.t g.past) :
    y.v ≤ g.filter.s0.v := by
  obtain ⟨hmem, hin⟩ := mem_inWindow.mp hy
  refine ht y hmem fun z hz => ?_
  have := hx.1 z hz
  omega

/-- The update is exact if nothing in the window exceeds what it returns. -/
theorem Held.exact_iff (h : Held g) (ht : Topped g) (hx : g.Ordered x) : g.Exact x ↔ g.Timely x := by
  have hin := h.within hx
  have hsub := wrappingSub_eq (h.le_time hx) hx.2.1
  have hlower : (g.feed x).filter.s0.v ≤ largest (inWindow g.filter.window x.t (g.past ++ [x])) := le_largest hin
  have hiff : g.Exact x ↔ ∀ y ∈ inWindow g.filter.window x.t g.past, y.v ≤ (g.feed x).filter.s0.v := by
    constructor
    · intro hexact y hy
      have hmem := mem_inWindow.mp hy
      rw [hexact]
      exact le_largest (mem_inWindow.mpr ⟨List.mem_append_left _ hmem.1, hmem.2⟩)
    · intro hall
      refine le_antisymm hlower (largest_le fun y hy => ?_)
      obtain ⟨hmem, hwin⟩ := mem_inWindow.mp hy
      rcases List.mem_append.mp hmem with hmem | hmem
      · exact hall y (mem_inWindow.mpr ⟨hmem, hwin⟩)
      · rw [List.mem_singleton.mp hmem]
        rcases h.feed_cases hx with ⟨hreset, -⟩ | ⟨hsame, hlt, -⟩
        · rw [hreset]
          exact le_rfl
        · rw [hsame]
          exact hlt.le
  rw [hiff, Fed.Timely, h.single.2, hsub]
  rcases h.feed_cases hx with ⟨hreset, hc⟩ | ⟨hsame, -, hlast⟩
  · rw [hreset]
    constructor
    · exact fun hall _ => hall
    · intro htimely y hy
      rcases hc with hle | hexpired
      · exact (ht.le hx hy).trans hle
      · exact htimely hexpired y hy
  · rw [hsame]
    exact ⟨fun _ hc => absurd hlast (Nat.not_le.mpr hc), fun _ y hy => ht.le hx hy⟩

theorem Held.topped (h : Held g) (ht : Topped g) (hx : g.Ordered x) (htimely : g.Timely x) : Topped (g.feed x) := by
  intro y hy hwin
  have hself : x ∈ (g.feed x).past := List.mem_append_right _ List.mem_cons_self
  have hwindow : (g.feed x).filter.window = g.filter.window := by
    rcases h.feed_cases hx with ⟨hreset, -⟩ | ⟨hsame, -⟩
    · rw [hreset]
      rfl
    · rw [hsame]
  have hin := hwin x hself
  rw [hwindow] at hin
  have hexact := (h.exact_iff ht hx).mpr htimely
  rw [hexact]
  exact le_largest (mem_inWindow.mpr ⟨hy, hin⟩)

/-- Fed at non-decreasing times, the filter returns values of the window only; and every
update returns the largest of them exactly if no expiry comes while a sample larger than
the new one is still in the window. -/
theorem windowed_max {window : Nat} {xs : List MaxSample} (hxs : Run.Along Fed.step Fed.Ordered (Fed.new window) xs) :
    Run.Along Fed.step (fun f x => (f.feed x).filter.s0 ∈ inWindow f.filter.window x.t (f.past ++ [x]))
        (Fed.new window) xs ∧
      (Run.Along Fed.step Fed.Exact (Fed.new window) xs ↔ Run.Along Fed.step Fed.Timely (Fed.new window) xs) := by
  constructor
  · refine Run.along_imp (I := Held) (fun f x f' hf hx he => ?_) (fun f x hf hx => hf.within hx) (held_new window) hxs
    cases he
    exact hf.feed hx
  · have hstep : ∀ f x f', (Held f ∧ Topped f) → (f.Ordered x ∧ f.Timely x) → Fed.step f x = some f' →
        Held f' ∧ Topped f' := by
      intro f x f' hf hx he
      cases he
      exact ⟨hf.1.feed hx.1, hf.1.topped hf.2 hx.1 hx.2⟩
    have hagree := Run.along_iff_along (C := fun f x => f.Ordered x ∧ f.Exact x) hstep
      (fun f x hf => and_congr_right fun hx => hf.1.exact_iff hf.2 hx)
      ⟨held_new window, fun _ hy => absurd hy List.not_mem_nil⟩ xs
    constructor
    · intro hexact
      exact Run.along_mono (fun _ _ h => h.2) (hagree.mp (Run.along_and hxs hexact))
    · intro htimely
      exact Run.along_mono (fun _ _ h => h.2) (hagree.mpr (Run.along_and hxs htimely))

/-- A window of three rounds in which the peak expires, and nothing larger than the new
sample is left. -/
theorem windowed_max_expiry :
    Run.Along Fed.step Fed.Exact (Fed.new 3) [⟨0, 100⟩, ⟨1, 50⟩, ⟨2, 80⟩, ⟨4, 80⟩, ⟨5, 200⟩] :=
  (windowed_max (by decide)).2.mpr (by decide)

/-- The second-best sample is forgotten when the peak expires: at 4 the sample of 1 is in the
window, and the update returns 80. -/
theorem second_best_forgotten :
    Run.Along Fed.step Fed.Ordered (Fed.new 3) [⟨0, 100⟩, ⟨1, 90⟩, ⟨4, 80⟩] ∧
      ∃ f, Run.run Fed.step (Fed.new 3) [⟨0, 100⟩, ⟨1, 90⟩] = some f ∧ (f.feed ⟨4, 80⟩).filter.s0.v = 80 ∧
        largest (inWindow 3 4 (f.past ++ [⟨4, 80⟩])) = 90 :=
  ⟨by decide, _, rfl, by decide, by decide⟩

end WindowedMax

end Ferrumnet
