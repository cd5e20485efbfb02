import Monkey.Proofs.Repl
import Monkey.Proofs.Session.Known
import Monkey.Script

/-!
# Failures that are reported

Where a text is run, an error of the program and a limit that is exceeded are reported. A number
that is too long to be read is reported nowhere, and an exceeded limit is not reported where a
program or a value is shown that was not just run.
-/

namespace Monkey

set_option autoImplicit false

theorem error_ne_ok {ε α : Type} (e : ε) (a : α) : (.error e : Except ε α) ≠ .ok a := by
  intro h
  cases h

/-- An error of the program, or a limit that is exceeded. -/
def Failure.Reported : Failure → Prop
  | .runtime _ _ => True
  | .tooDeep => True
  | _ => False

def Session.Fault.Reported : Fault → Prop
  | .unreadable _ _ => True
  | .failed f => f.Reported

/-- The run ends with one of the two statuses of a script. -/
def Ending.Told (e : Ending) : Prop := e = .status 0 ∨ e = .status 1

theorem Ending.not_told_broken (f : Failure) : ¬ (Ending.broken f).Told := by
  rintro (h | h) <;> cases h

def Value.Shows (depth : Nat) (v : Value) : Prop := v.fits depth = true ∧ v.text?.isSome = true

namespace Session

/-- Running the text gives a value that can be shown, or fails in a way that is reported. -/
def Answers (text file : String) (s : Session) : Prop :=
  match (s.run text file).1 with
  | .ok v => v.Shows s.depth
  | .error fault => fault.Reported

def Outlines (text file : String) (s : Session) : Prop :=
  s.refusal? (Reader.readText s.depth text file) = none ∧
    ((Reader.readText s.depth text file).errors = [] →
      (Reader.readText s.depth text file).program.fits s.depth = true)

/-- What a line asks for can be done, or fails in a way that is reported. -/
def Manages (s : Session) : Repl.Request → Prop
  | .outline text => s.Outlines text "<input>"
  | .bindings => ∀ b ∈ s.bindings, b.2.Shows s.depth
  | .evaluate line =>
    match (s.run line "<input>").1 with
    | .ok v => v.fits s.depth = true → v.text?.isSome = true
    | .error fault => fault.Reported
  | _ => True

/-- Showing a value gives its text, or fails. A limit that is exceeded is a failure that is reported
where the value was just run; that a value has no text is none. -/
theorem lift_shown (d : Nat) (v : Value) (s : Session) :
    v.Shows d ∧ (∃ t, s.lift (Run.shown d v) = (.ok t, s)) ∨
      ¬ v.Shows d ∧ ∃ f, s.lift (Run.shown d v) = (.error f, s) ∧
        (f.Reported ↔ (v.fits d = true → v.text?.isSome = true)) := by
  cases hfits : v.fits d with
  | false =>
    refine .inr ⟨fun h => absurd (hfits.symm.trans h.1) Bool.false_ne_true, .tooDeep, ?_, ?_⟩
    · apply lift_error
      rw [Run.shown, hfits]
      rfl
    · exact iff_of_true trivial fun h => absurd h Bool.false_ne_true
  | true =>
    cases htext : v.text? with
    | some t =>
      refine .inl ⟨⟨hfits, htext ▸ rfl⟩, t, lift_ok ?_⟩
      rw [Run.shown, if_pos hfits, htext]
      rfl
    | none =>
      have hlacking : Run.shown d v = Run.lacking v .noText := by
        rw [Run.shown, if_pos hfits, htext]
      have hnone : ¬ v.Shows d := fun h => by simp [Value.Shows, htext] at h
      rw [hlacking]
      refine .inr ⟨hnone, ?_⟩
      cases v with
      | missing => exact ⟨.noValue, rfl, iff_of_false id (by simp)⟩
      | _ => exact ⟨.noText _, rfl, iff_of_false id (by simp)⟩

end Session

namespace Repl

open Session (lift_shown)

/-- What is reported needs no more care; what is not is left over as it is. -/
theorem reportFault_cases (fault : Session.Fault) (s : Session) :
    fault.Reported ∧ (∃ t, reportFault fault s = (.ok (), t)) ∨
      ¬ fault.Reported ∧ ∃ f, reportFault fault s = (.error f, s) := by
  cases fault with
  | unreadable messages file => exact .inl ⟨trivial, _, rfl⟩
  | failed f =>
    cases f with
    | runtime e source => exact .inl ⟨trivial, _, rfl⟩
    | tooDeep => exact .inl ⟨trivial, _, rfl⟩
    | _ => exact .inr ⟨id, _, rfl⟩

variable (s : Session)

theorem showOutline_ok_iff (text : String) :
    (showOutline text s).1 = .ok () ↔ s.Outlines text "<input>" := by
  rw [showOutline, Session.read_eq, Session.Outlines]
  generalize Reader.readText s.depth text "<input>" = r
  cases s.refusal? r with
  | some why => exact iff_of_false (error_ne_ok _ _) fun h => Option.some_ne_none why h.1
  | none =>
    dsimp only
    by_cases he : r.errors = []
    · rw [if_neg (not_not_intro he)]
      split
      · next hfits => exact iff_of_true rfl ⟨rfl, fun _ => hfits⟩
      · next hfits => exact iff_of_false (error_ne_ok _ _) fun h => hfits (h.2 he)
    · rw [if_pos he]
      exact iff_of_true rfl ⟨rfl, fun h => absurd h he⟩

theorem showEach_ok_iff (bs : Bindings) :
    (showEach bs s).1 = .ok () ↔ ∀ b ∈ bs, b.2.Shows s.depth := by
  induction bs generalizing s with
  | nil => exact iff_of_true rfl fun _ hb => absurd hb List.not_mem_nil
  | cons b bs ih =>
    obtain ⟨name, v⟩ := b
    rw [showEach, List.forall_mem_cons]
    rcases lift_shown s.depth v s with ⟨hv, t, ht⟩ | ⟨hv, f, hf, _⟩
    · rw [ht]
      dsimp only
      rw [ih]
      exact (and_iff_right hv).symm
    · rw [hf]
      exact iff_of_false (error_ne_ok _ _) fun h => hv h.1

theorem showBindings_ok_iff :
    (showBindings s).1 = .ok () ↔ ∀ b ∈ s.bindings, b.2.Shows s.depth := by
  unfold showBindings
  split
  · next hnil =>
    rw [hnil]
    exact iff_of_true rfl fun _ hb => absurd hb List.not_mem_nil
  · exact showEach_ok_iff s _

theorem evaluate_ok_iff (line : String) :
    (evaluate line s).1 = .ok () ↔ s.Manages (.evaluate line) := by
  have hdepth := Session.run_depth line "<input>" s
  rw [evaluate, Session.Manages]
  revert hdepth
  generalize s.run line "<input>" = p
  obtain ⟨result, t⟩ := p
  intro hdepth
  cases result with
  | error fault =>
    dsimp only
    rcases reportFault_cases fault t with ⟨hf, u, hu⟩ | ⟨hf, f, hu⟩
    · rw [hu]
      exact iff_of_true rfl hf
    · rw [hu]
      exact iff_of_false (error_ne_ok _ _) hf
  | ok v =>
    dsimp only at hdepth ⊢
    rw [hdepth]
    split
    · next hnull =>
      cases v with
      | null => exact iff_of_true rfl fun _ => rfl
      | _ => cases hnull
    · rcases lift_shown s.depth v t with ⟨hv, text, ht⟩ | ⟨hv, f, hf, hreported⟩
      · rw [ht]
        exact iff_of_true rfl fun _ => hv.2
      · rw [hf, ← hreported]
        dsimp only
        rcases reportFault_cases (.failed f) t with ⟨hf, u, hu⟩ | ⟨hf, g, hu⟩
        · rw [hu]
          exact iff_of_true rfl hf
        · rw [hu]
          exact iff_of_false (error_ne_ok _ _) hf

theorem perform_ok_iff (r : Request) : (perform r s).1 = .ok () ↔ s.Manages r := by
  cases r with
  | exit => exact iff_of_true rfl trivial
  | nothing => exact iff_of_true rfl trivial
  | outline text => exact showOutline_ok_iff s text
  | tokens text => exact iff_of_true rfl trivial
  | bindings => exact showBindings_ok_iff s
  | help => exact iff_of_true rfl trivial
  | evaluate line => exact evaluate_ok_iff s line

theorem handle_ok_iff (line : String) :
    (handle line s).1 = .ok (decide (Text.trim line ≠ exitCommand)) ↔
      s.Manages (.ofLine line) := by
  have hgoesOn : decide (Text.trim line ≠ exitCommand) = (Request.ofLine line != .exit) := by
    rw [bne, beq_eq_decide, ← decide_not]
    exact decide_eq_decide.mpr (not_congr ofLine_eq_exit_iff.symm)
  rw [← perform_ok_iff, handle, hgoesOn]
  generalize perform (.ofLine line) s = p
  obtain ⟨result, t⟩ := p
  cases result with
  | ok u => exact iff_of_true rfl rfl
  | error f => exact iff_of_false (error_ne_ok f _) (error_ne_ok f _)

end Repl

namespace Script

open Session (lift_shown)

theorem forall_ok_iff {ε α : Type} {a : α} {P : α → Prop} :
    (∀ b, (.ok a : Except ε α) = .ok b → P b) ↔ P a :=
  ⟨fun h => h a rfl, fun h _ hb => Except.ok.inj hb ▸ h⟩

variable (path : String) (content : Except Files.Fault (List UInt8)) (s : Session)

theorem tokens_told : (tokens path content s).1.Told := by
  unfold tokens
  split
  · exact .inr rfl
  · exact .inl rfl

theorem run_told_iff : (run path content s).1.Told ↔
    ∀ program, text content = .ok program → s.Answers program path := by
  unfold run
  cases text content with
  | error f => exact iff_of_true (.inr rfl) fun _ h => absurd h (error_ne_ok f _)
  | ok program =>
    have hdepth := Session.run_depth program path s
    rw [forall_ok_iff, Session.Answers]
    dsimp only
    revert hdepth
    generalize s.run program path = p
    obtain ⟨result, t⟩ := p
    intro hdepth
    cases result with
    | error fault =>
      dsimp only
      rcases Repl.reportFault_cases fault t with ⟨hf, u, hu⟩ | ⟨hf, f, hu⟩
      · rw [hu]
        exact iff_of_true (.inr rfl) hf
      · rw [hu]
        exact iff_of_false (Ending.not_told_broken f) hf
    | ok v =>
      dsimp only at hdepth ⊢
      rw [hdepth]
      rcases lift_shown s.depth v t with ⟨hv, text, ht⟩ | ⟨hv, f, hf, _⟩
      · rw [ht]
        exact iff_of_true (.inl rfl) hv
      · rw [hf]
        exact iff_of_false (Ending.not_told_broken f) hv

theorem outline_told_iff : (outline path content s).1.Told ↔
    ∀ program, text content = .ok program → s.Outlines program path := by
  unfold outline
  cases text content with
  | error f => exact iff_of_true (.inr rfl) fun _ h => absurd h (error_ne_ok f _)
  | ok program =>
    rw [forall_ok_iff, Session.Outlines]
    dsimp only
    rw [Session.read_eq]
    generalize Reader.readText s.depth program path = r
    cases s.refusal? r with
    | some why => exact iff_of_false (Ending.not_told_broken _) fun h => Option.some_ne_none why h.1
    | none =>
      dsimp only
      by_cases he : r.errors = []
      · rw [if_pos he]
        split
        · next hfits => exact iff_of_true (.inl rfl) ⟨rfl, fun _ => hfits⟩
        · next hfits =>
          exact iff_of_false (Ending.not_told_broken _) fun h => hfits (h.2 he)
      · rw [if_neg he]
        exact iff_of_true (.inr rfl) ⟨rfl, fun h => absurd h he⟩

end Script

namespace Session

variable {s : Session}

/-- Among known values, and with no number that is too long, running a text gives a known value or
fails in a way that is reported. -/
theorem run_reported (hs : s.machine.Known) {text file : String}
    (hnumeral : ∀ e, (Reader.readText s.depth text file).refusal ≠ some (.numeral e)) :
    match (s.run text file).1 with
    | .ok v => v.Known
    | .error fault => fault.Reported := by
  have hknown := (known_run hs text file).2
  have hran := ran text file s
  revert hknown hran
  generalize (s.run text file).1 = result
  generalize (s.run text file).2 = t
  intro hknown hran
  cases hran with
  | tooDeep records => trivial
  | @refused records why hwhy =>
    cases why with
    | tooDeep => trivial
    | numeral e => exact absurd hwhy (hnumeral e)
  | unreadable records he => trivial
  | ended records he _ => exact hknown he hnumeral
  | @failed records f m he _ =>
    have hf : f.Expected := hknown he hnumeral
    cases f with
    | runtime e source => trivial
    | tooDeep => trivial
    | _ => exact hf.elim

theorem manages_evaluate (hs : s.machine.Known) {line : String}
    (hnumeral : ∀ e, (Reader.readText s.depth line "<input>").refusal ≠ some (.numeral e)) :
    s.Manages (.evaluate line) := by
  have hrun := run_reported hs hnumeral
  rw [Manages]
  revert hrun
  generalize (s.run line "<input>").1 = result
  intro hrun
  cases result with
  | error fault => exact hrun
  | ok v =>
    intro _
    obtain ⟨t, ht⟩ := Value.Known.text? hrun
    exact Option.isSome_iff_exists.mpr ⟨t, ht⟩

/-- A script that is shown as tokens always ends with a status. Shown as an outline it does if its
program is read and can be shown, and run it does if it gives a value that can be shown or fails in
a way that is reported. A line is handled if what it asks for can be done or fails in such a way;
that is so of every line that is run, as long as there is no number that is too long and all values
are known. -/
theorem told_iff (s : Session) :
    (∀ path content, (Script.tokens path content s).1.Told) ∧
    (∀ path content, (Script.outline path content s).1.Told ↔
      ∀ program, Script.text content = .ok program → s.Outlines program path) ∧
    (∀ path content, (Script.run path content s).1.Told ↔
      ∀ program, Script.text content = .ok program → s.Answers program path) ∧
    (∀ line, (Repl.handle line s).1 = .ok (decide (Text.trim line ≠ Repl.exitCommand)) ↔
      s.Manages (.ofLine line)) ∧
    (s.machine.Known → ∀ line,
      (∀ e, (Reader.readText s.depth line "<input>").refusal ≠ some (.numeral e)) →
      s.Manages (.evaluate line)) :=
  ⟨fun path content => Script.tokens_told path content s,
    fun path content => Script.outline_told_iff path content s,
    fun path content => Script.run_told_iff path content s,
    fun line => Repl.handle_ok_iff s line, fun hs _ hnumeral => manages_evaluate hs hnumeral⟩

/-- Parentheses that go too deep: a limit that is exceeded is reported where the line is run, and
not where it is shown as an outline. -/
theorem nested_outline_not_told :
    (Repl.handle "((((((1" (start false 5 [])).1 = .ok true ∧
      (Repl.handle ":parse ((((((1" (start false 5 [])).1 = .error .tooDeep ∧
      ¬ (Script.outline "" (.ok ("((((((1".toList.map fun c => c.toNat.toUInt8))
        (start false 5 [])).1.Told := by
  refine ⟨by decide +kernel, by decide +kernel, ?_⟩
  have hbroken : (Script.outline "" (.ok ("((((((1".toList.map fun c => c.toNat.toUInt8))
      (start false 5 [])).1 = .broken .tooDeep := by decide +kernel
  rw [hbroken]
  exact Ending.not_told_broken .tooDeep

end Session

end Monkey
