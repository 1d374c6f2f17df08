import Mathlib.Data.List.Chain
import Mathlib.Data.List.Infix

/-!
# Reports of a level

A source follows a level through its samples and sends out a report when the level changes. Each
report may raise a name and may recover one. These lemmas say what is left open of what was raised.
-/

namespace Statnive.LevelReports

variable {σ ι ρ ν : Type*}

/-- The level after the samples. -/
def final (step : σ → ι → σ × Option ρ) (s : σ) (is : List ι) : σ :=
  is.foldl (fun s i => (step s i).1) s

/-- The reports, each with the level that it was sent at. -/
def log (step : σ → ι → σ × Option ρ) : σ → List ι → List (σ × ρ)
  | _, [] => []
  | s, i :: is => (step s i).2.toList.map ((step s i).1, ·) ++ log step (step s i).1 is

/-- The reports alone. -/
def reports (step : σ → ι → σ × Option ρ) (s : σ) (is : List ι) : List ρ :=
  (log step s is).map Prod.snd

/-- No two reports in a row are sent at one level, and the first one is sent at another level than
the first one of the source. -/
def Debounced (step : σ → ι → σ × Option ρ) (s : σ) (is : List ι) : Prop :=
  (s :: (log step s is).map Prod.fst).IsChain (· ≠ ·)

/-- Each name that a report raised was recovered by a later one. -/
def Recovered (raises : ρ → Option ν) (recovers : ρ → ν → Prop) (rs : List ρ) : Prop :=
  ∀ before r after n, rs = before ++ r :: after → raises r = some n → ∃ r' ∈ after, recovers r' n

/-- A name that was raised, and not recovered since. -/
def Open (raises : ρ → Option ν) (recovers : ρ → ν → Prop) (rs : List ρ) (n : ν) : Prop :=
  ∃ before r after, rs = before ++ r :: after ∧ raises r = some n ∧ ∀ r' ∈ after, ¬ recovers r' n

/-- Along the samples the reports are debounced, and whenever the source is at its level `clear`,
each name was recovered. -/
structure Balanced (raises : ρ → Option ν) (recovers : ρ → ν → Prop)
    (step : σ → ι → σ × Option ρ) (clear : σ) (is : List ι) : Prop where
  debounced : Debounced step clear is
  recovered : ∀ js, js <+: is → final step clear js = clear →
    Recovered raises recovers (reports step clear js)

variable {step : σ → ι → σ × Option ρ} {s : σ} {i : ι} {is : List ι}

theorem final_snoc : final step s (is ++ [i]) = (step (final step s is) i).1 := by
  rw [final, List.foldl_append]
  rfl

private theorem log_snoc : log step s (is ++ [i]) = log step s is ++
    (step (final step s is) i).2.toList.map ((step (final step s is) i).1, ·) := by
  induction is generalizing s with
  | nil => simp [log, final]
  | cons j is ih =>
    rw [List.cons_append, log, ih, log, List.append_assoc]
    rfl

theorem reports_snoc : reports step s (is ++ [i]) =
    reports step s is ++ (step (final step s is) i).2.toList := by
  simp [reports, log_snoc, List.map_append, Function.comp_def]

/-- A source that reports each change of its level and nothing else is debounced. -/
theorem debounced_of_step (hstep : ∀ s i, (step s i).2 = none ↔ (step s i).1 = s) (s : σ)
    (is : List ι) : Debounced step s is := by
  induction is generalizing s with
  | nil => exact List.isChain_singleton s
  | cons i is ih =>
    have hrest := ih (step s i).1
    cases hreport : (step s i).2 with
    | none =>
      rw [(hstep s i).mp hreport] at hrest
      simpa [Debounced, log, hreport, (hstep s i).mp hreport] using hrest
    | some r =>
      have hne : s ≠ (step s i).1 := fun heq => by
        have hnone := (hstep s i).mpr heq.symm
        rw [hreport] at hnone
        cases hnone
      simp only [Debounced, log, hreport, Option.toList_some, List.map_cons, List.map_nil,
        List.cons_append, List.nil_append, List.isChain_cons_cons]
      exact ⟨hne, hrest⟩

variable {raises : ρ → Option ν} {recovers : ρ → ν → Prop} {rs : List ρ} {r : ρ} {n : ν}

theorem recovered_iff : Recovered raises recovers rs ↔ ∀ n, ¬ Open raises recovers rs n := by
  constructor
  · rintro h n ⟨before, r, after, hrs, hr, hafter⟩
    obtain ⟨r', hmem, hrec⟩ := h before r after n hrs hr
    exact hafter r' hmem hrec
  · intro h before r after n hrs hr
    by_contra! hnone
    exact h n ⟨before, r, after, hrs, hr, hnone⟩

theorem not_open_nil : ¬ Open raises recovers [] n := by
  rintro ⟨before, r, after, hrs, -, -⟩
  simp at hrs

/-- A report opens the name it raises, and closes those it recovers. -/
theorem open_snoc : Open raises recovers (rs ++ [r]) n ↔
    raises r = some n ∨ Open raises recovers rs n ∧ ¬ recovers r n := by
  constructor
  · rintro ⟨before, r', after, hrs, hr', hafter⟩
    obtain rfl | ⟨after, last, rfl⟩ := after.eq_nil_or_concat
    · obtain ⟨-, rfl⟩ := List.append_inj' hrs rfl |>.imp_right List.singleton_inj.mp
      exact .inl hr'
    · have hsplit : rs ++ [r] = (before ++ r' :: after) ++ [last] := by simpa using hrs
      obtain ⟨rfl, hlast⟩ := List.append_inj' hsplit rfl
      obtain rfl := List.singleton_inj.mp hlast
      refine .inr ⟨⟨before, r', after, rfl, hr', fun u hu => hafter u ?_⟩, hafter r ?_⟩
      · simp [hu]
      · simp
  · rintro (hr | ⟨⟨before, r', after, rfl, hr', hafter⟩, hrec⟩)
    · exact ⟨rs, r, [], rfl, hr, by simp⟩
    · refine ⟨before, r', after ++ [r], by simp, hr', fun u hu => ?_⟩
      obtain hu | hu := List.mem_append.mp hu
      · exact hafter u hu
      · exact List.mem_singleton.mp hu ▸ hrec

/-- What is open after the samples is what `P` says, if each report makes of `P` what it makes of
the open names. -/
theorem open_reports_iff {P : σ → ν → Prop} (hstart : ∀ n, ¬ P s n)
    (hquiet : ∀ s i, (step s i).2 = none → (step s i).1 = s)
    (hstep : ∀ is i r, (step (final step s is) i).2 = some r → ∀ n,
      P (step (final step s is) i).1 n ↔ raises r = some n ∨ P (final step s is) n ∧ ¬ recovers r n)
    (is : List ι) (n : ν) :
    Open raises recovers (reports step s is) n ↔ P (final step s is) n := by
  induction is using List.reverseRecOn generalizing n with
  | nil => exact iff_of_false not_open_nil (hstart n)
  | append_singleton is i ih =>
    rw [reports_snoc, final_snoc]
    cases hreport : (step (final step s is) i).2 with
    | none => rw [hquiet _ i hreport, Option.toList_none, List.append_nil, ih]
    | some r => rw [Option.toList_some, open_snoc, ih, hstep is i r hreport]

/-- A source whose open names are those of its level is balanced, if none is open at `clear`. -/
theorem balanced_of_step {P : σ → ν → Prop} {clear : σ} (hclear : ∀ n, ¬ P clear n)
    (hreport : ∀ s i, (step s i).2 = none ↔ (step s i).1 = s)
    (hstep : ∀ is i r, (step (final step clear is) i).2 = some r → ∀ n,
      P (step (final step clear is) i).1 n ↔
        raises r = some n ∨ P (final step clear is) n ∧ ¬ recovers r n) (is : List ι) :
    Balanced raises recovers step clear is where
  debounced := debounced_of_step hreport clear is
  recovered js _ hfinal := recovered_iff.mpr fun n hopen => by
    rw [open_reports_iff hclear (fun s i => (hreport s i).mp) hstep, hfinal] at hopen
    exact hclear n hopen

end Statnive.LevelReports
