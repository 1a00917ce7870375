import Mathlib.Data.List.Induction

/-!
# Calls and replies

A table is used by a sequence of calls, each of which gets a reply and leaves the table in some
state. Two tables cannot be told apart if their states can be related so that related states give
the same replies, and stay related.

What a table holds is often there since a certain call, and was left alone by the calls after it.

## Main definitions

* `replay`, the replies to a sequence of calls, and the state after them
* `Lasts`, what one of the calls brought about has lasted since

## Main statements

* `concat_eq_append_cons_iff`, the calls before and after a given one
* `replay_simulates`
* `lasts_concat`, one more call brings something about, or lets last what there was
-/
namespace NamedData

universe u v w

variable {κ : Type u} {ρ : Type v} {σ τ : Type w} {perform : κ → σ → ρ × σ} {calls calls' : List κ}
  {c c' : κ} {s : σ}

/-- After one more call, a call is that one or was there before. -/
theorem concat_eq_append_cons_iff {earlier later : List κ} :
    calls ++ [c] = earlier ++ c' :: later ↔
      (later = [] ∧ calls = earlier ∧ c = c') ∨
        ∃ rest, later = rest ++ [c] ∧ calls = earlier ++ c' :: rest := by
  constructor
  · intro heq
    cases later using List.reverseRecOn with
    | nil =>
      obtain ⟨rfl, hc⟩ := List.append_inj' heq rfl
      exact .inl ⟨rfl, rfl, List.singleton_inj.mp hc⟩
    | append_singleton rest last =>
      rw [← List.cons_append, ← List.append_assoc] at heq
      obtain ⟨rfl, hc⟩ := List.append_inj' heq rfl
      obtain rfl := List.singleton_inj.mp hc
      exact .inr ⟨rest, rfl, rfl⟩
  · rintro (⟨rfl, rfl, rfl⟩ | ⟨rest, rfl, rfl⟩)
    · rfl
    · simp

/-! ## What has lasted -/

section Lasts

variable {P P' : List κ → κ → Prop} {Q Q' : κ → Prop}

/-- One of the calls was of the kind `P`, given those before it, and all calls since then are of
the kind `Q`. -/
def Lasts (P : List κ → κ → Prop) (Q : κ → Prop) (calls : List κ) : Prop :=
  ∃ earlier c later, calls = earlier ++ c :: later ∧ P earlier c ∧ ∀ c' ∈ later, Q c'

theorem not_lasts_nil : ¬ Lasts P Q [] := by
  rintro ⟨earlier, c, later, heq, -⟩
  exact List.append_ne_nil_of_right_ne_nil earlier (List.cons_ne_nil c later) heq.symm

theorem lasts_concat : Lasts P Q (calls ++ [c]) ↔ P calls c ∨ Q c ∧ Lasts P Q calls := by
  constructor
  · rintro ⟨earlier, c', later, heq, hP, hQ⟩
    rcases concat_eq_append_cons_iff.mp heq with ⟨rfl, rfl, rfl⟩ | ⟨rest, rfl, rfl⟩
    · exact .inl hP
    · rw [List.forall_mem_append, List.forall_mem_singleton] at hQ
      exact .inr ⟨hQ.2, earlier, c', rest, rfl, hP, hQ.1⟩
  · rintro (hP | ⟨hc, earlier, c', later, rfl, hP, hQ⟩)
    · exact ⟨calls, c, [], rfl, hP, List.forall_mem_nil _⟩
    · refine ⟨earlier, c', later ++ [c], by simp, hP, ?_⟩
      rw [List.forall_mem_append, List.forall_mem_singleton]
      exact ⟨hQ, hc⟩

theorem Lasts.imp (h : Lasts P Q calls) (hP : ∀ earlier c, P earlier c → P' earlier c)
    (hQ : ∀ c, Q c → Q' c) : Lasts P' Q' calls := by
  obtain ⟨earlier, c, later, rfl, hc, hlater⟩ := h
  exact ⟨earlier, c, later, rfl, hP earlier c hc, fun c' hc' => hQ c' (hlater c' hc')⟩

end Lasts

/-! ## Replies -/

/-- The replies to the calls, the first of them first, and the state after them. -/
def replay (perform : κ → σ → ρ × σ) : List κ → σ → List ρ × σ
  | [], s => ([], s)
  | c :: rest, s =>
    let later := replay perform rest (perform c s).2
    ((perform c s).1 :: later.1, later.2)

theorem replay_append : replay perform (calls ++ calls') s =
    ((replay perform calls s).1 ++ (replay perform calls' (replay perform calls s).2).1,
      (replay perform calls' (replay perform calls s).2).2) := by
  induction calls generalizing s with
  | nil => rfl
  | cons c rest ih => simp only [List.cons_append, replay, ih]

/-- What one more call adds. -/
theorem replay_concat : replay perform (calls ++ [c]) s =
    ((replay perform calls s).1 ++ [(perform c (replay perform calls s).2).1],
      (perform c (replay perform calls s).2).2) :=
  replay_append

/-- **Simulation.** If related states give the same reply to every call, and are related after
it, then no sequence of calls tells them apart. -/
theorem replay_simulates {perform' : κ → τ → ρ × τ} {Related : σ → τ → Prop}
    (hstep : ∀ c s t, Related s t →
      (perform c s).1 = (perform' c t).1 ∧ Related (perform c s).2 (perform' c t).2)
    (calls : List κ) {t : τ} (h : Related s t) :
    (replay perform calls s).1 = (replay perform' calls t).1 ∧
      Related (replay perform calls s).2 (replay perform' calls t).2 := by
  induction calls generalizing s t with
  | nil => exact ⟨rfl, h⟩
  | cons c rest ih =>
    obtain ⟨hreply, hnext⟩ := hstep c s t h
    obtain ⟨hreplies, hend⟩ := ih hnext
    simp only [replay, hreply, hreplies]
    exact ⟨trivial, hend⟩

end NamedData
