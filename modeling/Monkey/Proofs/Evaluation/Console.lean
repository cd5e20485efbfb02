import Monkey.Console

/-!
# What is done on a console

A console leads to another one by events, one after another. What was done stays, and only a prompt
takes a line away.
-/

namespace Monkey.Console

set_option autoImplicit false

variable {c d e : Console}

/-- The console after one more event; a prompt takes a line. -/
def perform (c : Console) : Event → Console
  | .prompt t => (c.ask t).2
  | .line t => c.add (.line t)
  | .text t => c.add (.text t)
  | .record t => c.add (.record t)

def Leads (c d : Console) : Prop := ∃ es : List Event, es.foldl perform c = d

theorem Leads.refl (c : Console) : c.Leads c := ⟨[], rfl⟩

theorem Leads.trans (h : c.Leads d) (h' : d.Leads e) : c.Leads e := by
  obtain ⟨es, rfl⟩ := h
  obtain ⟨fs, rfl⟩ := h'
  exact ⟨es ++ fs, List.foldl_append⟩

theorem leads_perform (c : Console) (e : Event) : c.Leads (c.perform e) := ⟨[e], rfl⟩

theorem perform_events (c : Console) (e : Event) :
    (c.perform e).events.toList = c.events.toList ++ [e] := by
  cases e with
  | prompt t =>
    rw [perform, ask]
    split <;> simp [add]
  | _ => simp [perform, add]

theorem foldl_perform_events (c : Console) (es : List Event) :
    (es.foldl perform c).events.toList = c.events.toList ++ es := by
  induction es generalizing c with
  | nil => simp
  | cons e es ih =>
    rw [List.foldl_cons, ih, perform_events, List.append_assoc, List.singleton_append]

theorem Leads.events_isPrefix (h : c.Leads d) : c.events.toList <+: d.events.toList := by
  obtain ⟨es, rfl⟩ := h
  rw [foldl_perform_events]
  exact List.prefix_append _ _

theorem Leads.lines_isPrefix (h : c.Leads d) : c.lines <+: d.lines :=
  h.events_isPrefix.filterMap _

theorem perform_pending_suffix (c : Console) (e : Event) :
    (c.perform e).pending <:+ c.pending := by
  cases e with
  | prompt t =>
    rw [perform, ask]
    split
    · exact List.suffix_rfl
    · next l ls hpending =>
      rw [hpending]
      exact List.suffix_cons l ls
  | _ => exact List.suffix_rfl

/-- Lines are read from the first one on. -/
theorem Leads.pending_suffix (h : c.Leads d) : d.pending <:+ c.pending := by
  obtain ⟨es, rfl⟩ := h
  induction es generalizing c with
  | nil => exact List.suffix_rfl
  | cons e es ih => exact ih.trans (perform_pending_suffix c e)

theorem Leads.prompts_isPrefix (h : c.Leads d) : c.prompts <+: d.prompts :=
  h.events_isPrefix.filterMap _

theorem perform_prompts (c : Console) (e : Event) :
    (c.perform e).pending = c.pending ∨ c.prompts.length < (c.perform e).prompts.length := by
  unfold prompts
  rw [perform_events, List.filterMap_append, List.length_append]
  cases e with
  | prompt t => exact .inr (Nat.lt_succ_self _)
  | _ => exact .inl rfl

/-- Where no prompt is shown, no line is read. -/
theorem Leads.pending_eq (h : c.Leads d) (hp : d.prompts = c.prompts) :
    d.pending = c.pending := by
  obtain ⟨es, rfl⟩ := h
  induction es generalizing c with
  | nil => rfl
  | cons e es ih =>
    have hfirst := (leads_perform c e).prompts_isPrefix
    have hrest := (show (c.perform e).Leads _ from ⟨es, rfl⟩).prompts_isPrefix
    rw [List.foldl_cons] at hp ⊢
    rw [hp] at hrest
    have hprompts : c.prompts = (c.perform e).prompts :=
      hfirst.eq_of_length (Nat.le_antisymm hfirst.length_le hrest.length_le)
    rw [ih (hp.trans hprompts)]
    exact (perform_prompts c e).resolve_right (hprompts ▸ Nat.lt_irrefl _)

section Parallel

variable {c' d' : Console}

/-- The same events lead from `c` to `c'` as from `d` to `d'`. -/
def Parallel (c d c' d' : Console) : Prop :=
  ∃ es : List Event, es.foldl perform c = c' ∧ es.foldl perform d = d'

theorem Parallel.refl (c d : Console) : Parallel c d c d := ⟨[], rfl, rfl⟩

theorem Parallel.perform (h : Parallel c d c' d') (e : Event) :
    Parallel c d (c'.perform e) (d'.perform e) := by
  obtain ⟨es, rfl, rfl⟩ := h
  exact ⟨es ++ [e], List.foldl_append, List.foldl_append⟩

/-- Consoles with the same lines to read read the same of them. -/
theorem perform_pending (h : c.pending = d.pending) (e : Event) :
    (c.perform e).pending = (d.perform e).pending := by
  cases e with
  | prompt t =>
    rw [Console.perform, Console.perform, ask, ask, h]
    cases d.pending with
    | nil => exact h
    | cons l ls => rfl
  | _ => exact h

theorem Parallel.pending_eq (h : Parallel c d c' d') (hcd : c.pending = d.pending) :
    c'.pending = d'.pending := by
  obtain ⟨es, rfl, rfl⟩ := h
  induction es generalizing c d with
  | nil => exact hcd
  | cons e es ih => exact ih (perform_pending hcd e)

theorem Parallel.lines (h : Parallel c d c' d') :
    ∃ out, c'.lines = c.lines ++ out ∧ d'.lines = d.lines ++ out := by
  obtain ⟨es, rfl, rfl⟩ := h
  unfold Console.lines
  rw [foldl_perform_events, foldl_perform_events, List.filterMap_append, List.filterMap_append]
  exact ⟨_, rfl, rfl⟩

end Parallel

end Monkey.Console
