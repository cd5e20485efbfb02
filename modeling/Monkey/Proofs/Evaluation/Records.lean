import Monkey.Proofs.Evaluation.Comparison
import Monkey.Proofs.Evaluation.Frame

/-!
# Evaluation and its log

Records in the log change nothing else. From machines that differ only in their logs, evaluations
end in the same way, and on machines that differ only in their logs again, whether or not one of
them keeps a log.
-/

namespace Monkey

set_option autoImplicit false

def Event.isRecord : Event → Bool
  | .record _ => true
  | _ => false

namespace Console

/-- The console without the records in its log. -/
def unlogged (c : Console) : Console := ⟨c.pending, c.events.filter fun e => !e.isRecord⟩

theorem unlogged_add (c : Console) (e : Event) :
    (c.add e).unlogged = if e.isRecord then c.unlogged else c.unlogged.add e := by
  unfold unlogged add
  rw [Array.filter_push]
  cases e.isRecord <;> rfl

theorem unlogged_ask (c : Console) (prompt : String) :
    (c.ask prompt).1 = (c.unlogged.ask prompt).1 ∧
      (c.ask prompt).2.unlogged = (c.unlogged.ask prompt).2 := by
  obtain ⟨pending, events⟩ := c
  cases pending with
  | nil => exact ⟨rfl, unlogged_add ⟨[], events⟩ (.prompt prompt)⟩
  | cons l ls => exact ⟨rfl, unlogged_add ⟨ls, events⟩ (.prompt prompt)⟩

section Seen

variable {α : Type} {f : Event → Option α}

theorem filterMap_unlogged (hf : ∀ t, f (.record t) = none) (c : Console) :
    c.unlogged.events.toList.filterMap f = c.events.toList.filterMap f := by
  rw [unlogged, Array.toList_filter, List.filterMap_filter]
  congr 1
  funext e
  cases e with
  | record t => exact (hf t).symm
  | _ => rfl

theorem lines_unlogged (c : Console) : c.unlogged.lines = c.lines :=
  filterMap_unlogged (fun _ => rfl) c

theorem prompts_unlogged (c : Console) : c.unlogged.prompts = c.prompts :=
  filterMap_unlogged (fun _ => rfl) c

end Seen

end Console

namespace Machine

variable {m n : Machine}

/-- The machine without the records in its log. -/
def unlogged (m : Machine) : Machine := ⟨m.store, m.console.unlogged⟩

theorem unlogged_eq_iff : m.unlogged = n.unlogged ↔
    m.store = n.store ∧ m.console.unlogged = n.console.unlogged := by
  rw [unlogged, unlogged, Machine.mk.injEq]

end Machine

namespace Comparison

/-- Any trees, in the same scope, on machines that differ only in their logs. -/
def unlogged : Comparison where
  trees := Trees.all
  scope i j := i = j
  holds m n := m.unlogged = n.unlogged

theorem alike_self (v : Value) : unlogged.Alike v v := by
  have halike : unlogged.Alike v (v.renamed id) := alike_renamed (fun _ => trivial) (fun _ => rfl) v
  rwa [Value.renamed_id] at halike

theorem note_unlogged (debug : Bool) (text : String) (m : Machine) :
    ∃ n, Run.note debug text m = .ok () n ∧ n.unlogged = m.unlogged := by
  cases debug with
  | false => exact ⟨m, rfl, rfl⟩
  | true => exact ⟨_, rfl, Machine.unlogged_eq_iff.mpr ⟨rfl, Console.unlogged_add _ _⟩⟩

theorem unlogged_note (debug debug' : Bool) (text : String) :
    unlogged.Agree (Run.note debug text) (Run.note debug' text) fun _ _ => True := by
  intro m n hmn
  have hmn : m.unlogged = n.unlogged := hmn
  obtain ⟨m', hm, hm'⟩ := note_unlogged debug text m
  obtain ⟨n', hn, hn'⟩ := note_unlogged debug' text n
  rw [hm, hn]
  exact .ok (hm'.trans (hmn.trans hn'.symm)) trivial

theorem unlogged_event (e : Event) :
    unlogged.Agree (Run.event e) (Run.event e) fun _ _ => True := by
  intro m n hmn
  obtain ⟨hstore, hconsole⟩ := Machine.unlogged_eq_iff.mp hmn
  refine .ok (Machine.unlogged_eq_iff.mpr ⟨hstore, ?_⟩) trivial
  rw [Console.unlogged_add, Console.unlogged_add, hconsole]

theorem unlogged_ask (prompt : String) : unlogged.Agree (Run.ask prompt) (Run.ask prompt) Eq := by
  intro m n hmn
  obtain ⟨hstore, hconsole⟩ := Machine.unlogged_eq_iff.mp hmn
  obtain ⟨hline, hafter⟩ := Console.unlogged_ask m.console prompt
  obtain ⟨hline', hafter'⟩ := Console.unlogged_ask n.console prompt
  rw [hconsole] at hline hafter
  refine .ok (Machine.unlogged_eq_iff.mpr ⟨hstore, ?_⟩) (hline.trans hline'.symm)
  exact hafter.trans hafter'.symm

theorem unlogged_bindName (scope : Nat) (name : String) (v : Value) :
    unlogged.Agree (Run.bindName scope name v) (Run.bindName scope name v) fun _ _ => True := by
  intro m n hmn
  obtain ⟨hstore, hconsole⟩ := Machine.unlogged_eq_iff.mp hmn
  unfold Run.bindName
  rw [hstore]
  exact .ok (Machine.unlogged_eq_iff.mpr ⟨rfl, hconsole⟩) trivial

theorem unlogged_enter (ps : List String) (scope : Nat) (args : List Value) :
    unlogged.Agree (Run.enter ps scope args) (Run.enter ps scope args) Eq := by
  unfold Run.enter
  split
  · intro m n hmn
    obtain ⟨hstore, hconsole⟩ := Machine.unlogged_eq_iff.mp hmn
    unfold Run.openScope
    rw [hstore]
    exact .ok (Machine.unlogged_eq_iff.mpr ⟨rfl, hconsole⟩) rfl
  · exact agree_stop _

/-- Evaluations that differ in whether they keep a log do not differ in anything else. -/
theorem unlogged_lawful (debug debug' : Bool) : unlogged.Lawful debug debug' where
  body _ _ _ := trivial
  note := unlogged_note debug debug'
  line text := unlogged_event (.line text)
  ask := unlogged_ask
  bindName := by
    rintro x e i _ v w - rfl hv
    rw [hv.eq fun _ _ hij => hij]
    exact unlogged_bindName i x w
  resolve := by
    rintro x i _ - rfl d
    apply agree_resolve
    intro m n hmn
    rw [(Machine.unlogged_eq_iff.mp hmn).1]
    cases n.store.lookup? x d i with
    | error f => exact .failed f
    | ok found =>
      cases found with
      | none => exact .nothing
      | some v => exact .value (alike_self v)
  enter := by
    rintro ps body i _ vs ws - rfl hvs
    rw [eq_of_forall₂_alike (fun _ _ hij => hij) hvs]
    exact unlogged_enter ps i ws

section Program

variable {m n : Machine}

theorem unlogged_top (debug debug' : Bool) (depth scope : Nat) (ss : List Statement)
    (h : m.unlogged = n.unlogged) :
    unlogged.Meets unlogged.Same (Run.block (Run.top debug depth scope) ss m)
      (Run.block (Run.top debug' depth scope) ss n) :=
  (unlogged_lawful debug debug').top depth rfl (fun _ _ => trivial) m n h

theorem unlogged_program (debug debug' : Bool) (depth scope : Nat) (p : Program)
    (h : m.unlogged = n.unlogged) :
    unlogged.Meets unlogged.Alike (Run.program debug depth scope p m)
      (Run.program debug' depth scope p n) :=
  (unlogged_lawful debug debug').program depth rfl (fun _ _ => trivial) m n h

end Program

end Comparison

end Monkey
