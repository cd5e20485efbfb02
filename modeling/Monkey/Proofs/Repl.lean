import Monkey.Proofs.Session.Deeper
import Monkey.Repl

/-!
# What a line does to a session

A line that is blank or a command shows something at most; it leaves all bindings as they are and
reads no other line. Any other line is run, and what is said about it then changes nothing more.
-/

namespace Monkey

set_option autoImplicit false

namespace Session

/-- The second session is the first one that has said more, and has read no line meanwhile. -/
def Says (s t : Session) : Prop :=
  ∃ c : Console, t = s.onConsole (fun _ => c) ∧ c.pending = s.machine.console.pending

section Says

variable {α : Type} {s t u : Session}

theorem Says.refl (s : Session) : s.Says s := ⟨s.machine.console, rfl, rfl⟩

theorem Says.trans (h : s.Says t) (h' : t.Says u) : s.Says u := by
  obtain ⟨c, rfl, hc⟩ := h
  obtain ⟨d, rfl, hd⟩ := h'
  exact ⟨d, rfl, hd.trans hc⟩

theorem Says.store (h : s.Says t) : t.machine.store = s.machine.store := by
  obtain ⟨c, rfl, _⟩ := h
  rfl

theorem Says.pending (h : s.Says t) :
    t.machine.console.pending = s.machine.console.pending := by
  obtain ⟨c, rfl, hc⟩ := h
  exact hc

theorem Says.pending_suffix (h : s.Says t) :
    t.machine.console.pending <:+ s.machine.console.pending :=
  ⟨[], h.pending⟩

theorem Says.globalScope (h : s.Says t) : t.globalScope = s.globalScope := by
  obtain ⟨c, rfl, _⟩ := h
  rfl

theorem Says.depth (h : s.Says t) : t.depth = s.depth := by
  obtain ⟨c, rfl, _⟩ := h
  rfl

theorem says_add (s : Session) (e : Event) : s.Says (s.onConsole fun c => c.add e) :=
  ⟨s.machine.console.add e, rfl, rfl⟩

theorem says_say (s : Session) (text : String) : s.Says (s.say text) := says_add s (.line text)

theorem says_logged (s : Session) (records : List String) : s.Says (s.logged records) :=
  ⟨_, rfl, logged_pending records s⟩

theorem says_lift {run : Run α} (h : run.Idle) (s : Session) : s.Says (s.lift run).2 := by
  rw [lift_snd, h]
  exact .refl s

theorem says_read (text file : String) (s : Session) : s.Says (s.read text file).2 := by
  rw [read_eq]
  exact says_logged s _

/-- A text with errors is not evaluated. -/
theorem says_run {text file : String} (h : (Reader.readText s.depth text file).errors ≠ []) :
    s.Says (s.run text file).2 := by
  have hran := ran text file s
  revert hran
  generalize (s.run text file).1 = result
  generalize (s.run text file).2 = t
  intro hran
  cases hran with
  | tooDeep records => exact says_logged s records
  | refused records _ => exact says_logged s records
  | unreadable records _ => exact says_logged s records
  | ended records he _ => exact absurd he h
  | failed records he _ => exact absurd he h

end Says

end Session

namespace Repl

open Session (Says says_say says_add says_lift says_read)

/-- A line without characters but blanks, or a line that is a command. -/
def IsCommand (line : String) : Prop :=
  Text.trim line = "" ∨ (Text.after? ":parse " (Text.trim line)).isSome ∨
    (Text.after? ":tokens " (Text.trim line)).isSome ∨ Text.trim line = ":env" ∨
    Text.trim line = ":help"

theorem ofLine_eq_exit_iff {line : String} :
    Request.ofLine line = .exit ↔ Text.trim line = exitCommand := by
  unfold Request.ofLine
  dsimp only
  by_cases h : Text.trim line = exitCommand
  · rw [if_pos h]
    exact iff_of_true rfl h
  · rw [if_neg h]
    refine iff_of_false ?_ h
    repeat' split
    all_goals exact Request.noConfusion

/-- A line that neither ends the session nor is a command is run as it is. -/
theorem ofLine_of_not_isCommand {line : String} (hexit : Text.trim line ≠ exitCommand)
    (h : ¬ IsCommand line) : Request.ofLine line = .evaluate line := by
  unfold IsCommand at h
  rw [not_or, not_or, not_or, not_or] at h
  obtain ⟨hblank, hparse, htokens, henv, hhelp⟩ := h
  unfold Request.ofLine
  dsimp only
  rw [if_neg hexit, if_neg hblank, Option.not_isSome_iff_eq_none.mp hparse,
    Option.not_isSome_iff_eq_none.mp htokens]
  dsimp only
  rw [if_neg henv, if_neg hhelp]

theorem not_isCommand_of_ofLine {line text : String} (h : Request.ofLine line = .evaluate text) :
    ¬ IsCommand line := by
  unfold Request.ofLine at h
  dsimp only at h
  split at h
  · cases h
  split at h
  · cases h
  next hblank =>
  split at h
  · cases h
  next hparse =>
  split at h
  · cases h
  next htokens =>
  split at h
  · cases h
  next henv =>
  split at h
  · cases h
  next hhelp =>
  rintro (hc | hc | hc | hc | hc)
  · exact hblank hc
  · rw [hparse] at hc
    cases hc
  · rw [htokens] at hc
    cases hc
  · exact henv hc
  · exact hhelp hc

theorem says_sayAll (lines : List String) (s : Session) : s.Says (sayAll lines s) := by
  rw [sayAll]
  induction lines generalizing s with
  | nil => exact .refl s
  | cons l lines ih => exact (says_say s l).trans (ih (s.say l))

theorem says_showOutline (text : String) (s : Session) : s.Says (showOutline text s).2 := by
  have hread := says_read text "<input>" s
  rw [showOutline]
  revert hread
  generalize s.read text "<input>" = p
  obtain ⟨result, t⟩ := p
  intro hread
  cases result with
  | error f => exact hread
  | ok r =>
    dsimp only
    split
    · exact hread.trans (says_say t _)
    · split
      · exact hread.trans (says_add t _)
      · exact hread

theorem says_showEach (bs : Bindings) (s : Session) : s.Says (showEach bs s).2 := by
  induction bs generalizing s with
  | nil => exact .refl s
  | cons b bs ih =>
    obtain ⟨name, v⟩ := b
    have hshown := says_lift (Run.idle_shown s.depth v) s
    rw [showEach]
    revert hshown
    generalize s.lift (Run.shown s.depth v) = p
    obtain ⟨result, t⟩ := p
    intro hshown
    cases result with
    | error f => exact hshown
    | ok text => exact (hshown.trans (says_say t _)).trans (ih _)

theorem says_showBindings (s : Session) : s.Says (showBindings s).2 := by
  unfold showBindings
  split
  · exact says_say s _
  · exact says_showEach _ s

/-- What does not evaluate a line leaves the session as it is. -/
theorem says_perform {r : Request} (h : ∀ line, r ≠ .evaluate line) (s : Session) :
    s.Says (perform r s).2 := by
  cases r with
  | exit => exact .refl s
  | nothing => exact .refl s
  | outline text => exact says_showOutline text s
  | tokens text => exact says_sayAll _ s
  | bindings => exact says_showBindings s
  | help => exact says_sayAll _ s
  | evaluate line => exact absurd rfl (h line)

theorem says_reportFault (fault : Session.Fault) (s : Session) :
    s.Says (reportFault fault s).2 := by
  unfold reportFault
  split
  · exact says_say s _
  · exact says_say s _
  · exact says_say s _
  · exact .refl s

theorem says_evaluate (line : String) (s : Session) :
    (s.run line "<input>").2.Says (evaluate line s).2 := by
  rw [evaluate]
  generalize s.run line "<input>" = p
  obtain ⟨result, t⟩ := p
  cases result with
  | error fault => exact says_reportFault fault t
  | ok v =>
    dsimp only
    split
    · exact .refl t
    · have hshown := says_lift (Run.idle_shown t.depth v) t
      revert hshown
      generalize t.lift (Run.shown t.depth v) = q
      obtain ⟨result, u⟩ := q
      intro hshown
      cases result with
      | ok text => exact hshown.trans (says_say u text)
      | error f => exact hshown.trans (says_reportFault _ u)

theorem handle_snd (line : String) (s : Session) :
    (handle line s).2 = (perform (.ofLine line) s).2 := by
  rw [handle]
  generalize perform (.ofLine line) s = p
  obtain ⟨result, t⟩ := p
  cases result <;> rfl

end Repl

end Monkey
