import Conditionals.Proofs.Fold.Trace

/-!
# Cancellation

A folding scan asks its token once before each line. `run_stopped` follows a scan up to the first answer
that says stop: it has read the lines before that answer and no other. `scan_all_or_nothing` says what
is left of it outside, whatever blocks were open and whatever ranges were complete by then.
-/

namespace Conditionals.Fold

theorem run_stop {token : Token} (stop : token.answer 0 = true) (state : State) (text : Text) (rest : List Text) :
    run token state (text :: rest) = { trace := { steps := [], state }, token := token.poll.2, cancelled := true } := by
  have answered : token.poll.1 = true := stop
  simp only [run, answered, if_true]

theorem run_stopped {token : Token} {lines : List Text} {count : Nat} (inside : count < lines.length)
    (stop : token.answer count = true) (go : ∀ earlier < count, token.answer earlier = false) (state : State) :
    run token state lines =
      { trace := trace state (lines.take count)
        token := { token with asked := token.asked + count + 1 }
        cancelled := true } := by
  induction lines generalizing token state count with
  | nil => cases inside
  | cons text rest ih =>
    -- Behind the first line the token has been asked once, and its answers are one ahead.
    cases count with
    | zero => exact run_stop stop state text rest
    | succ count =>
      have further : ∀ earlier < count, token.poll.2.answer earlier = false := by
        intro earlier before
        rw [Token.answer_poll]
        exact go (earlier + 1) (by omega)
      have stopped : token.poll.2.answer count = true := by rwa [Token.answer_poll]
      have asked : token.poll.2.asked + count + 1 = token.asked + (count + 1) + 1 := by
        show token.asked + 1 + count + 1 = token.asked + (count + 1) + 1
        omega
      rw [run_go (go 0 (by omega)), ih (Nat.lt_of_succ_lt_succ inside) stopped further, List.take_succ_cons, trace,
        asked]
      rfl

theorem scan_stopped {token : Token} {lines : List Text} {count : Nat} (inside : count < lines.length)
    (stop : token.answer count = true) (go : ∀ earlier < count, token.answer earlier = false) (chosen : Categories) :
    scan chosen token lines =
      { result := .error { line := count }
        log := logged chosen ((trace {} (lines.take count)).steps.flatMap Step.events ++ [.cancelled count])
        polls := count + 1 } := by
  have line : (trace {} (lines.take count)).state.line = count := by
    rw [trace_line, List.length_take_of_le (Nat.le_of_lt inside)]
    exact Nat.zero_add count
  simp only [scan, run_stopped inside stop go, Run.result, Run.events, if_true, line]
  congr 1
  omega

/-- The first answer that says stop leaves nothing of a scan but the number of its line. Answers that all say
go on make no difference, and there is one for each line. -/
theorem scan_all_or_nothing (chosen : Categories) (token : Token) (lines : List Text) :
    (∀ count < lines.length, token.answer count = true → (∀ earlier < count, token.answer earlier = false) →
      (scan chosen token lines).result = .error { line := count } ∧
      (scan chosen token lines).polls = count + 1 ∧
      (scan chosen token lines).log =
        logged chosen ((trace {} (lines.take count)).steps.flatMap Step.events ++ [.cancelled count])) ∧
    ((∀ count < lines.length, token.answer count = false) →
      (scan chosen token lines).polls = lines.length ∧
      scan chosen token lines = scan chosen Token.never lines ∧
      (scan chosen Token.never lines).result = .ok (folding lines)) := by
  constructor
  · intro count inside stop go
    rw [scan_stopped inside stop go]
    exact ⟨rfl, rfl, rfl⟩
  · intro go
    have never : ∀ count < lines.length, Token.never.answer count = false := fun _ _ => rfl
    rw [scan_unstopped go, scan_unstopped never]
    exact ⟨rfl, rfl, rfl⟩

/-- The range of the first branch is complete when the token says stop, and is lost. A token that says stop
only after the last line is not asked that far. -/
theorem scan_all_or_nothing_branch :
    (folding ["#if A".toList, "#else".toList]).ranges ≠ [] ∧
    (scan .all (Token.stopAfter 2) ["#if A".toList, "#else".toList, "#endif".toList]).result = .error { line := 2 } ∧
    (scan .all (Token.stopAfter 2) ["#if A".toList, "#else".toList, "#endif".toList]).polls = 3 ∧
    scan .all (Token.stopAfter 3) ["#if A".toList, "#else".toList, "#endif".toList] =
      scan .all Token.never ["#if A".toList, "#else".toList, "#endif".toList] := by
  have stopped := (scan_all_or_nothing .all (Token.stopAfter 2) ["#if A".toList, "#else".toList, "#endif".toList]).1 2
    (by decide) (by decide) (by decide)
  have whole := (scan_all_or_nothing .all (Token.stopAfter 3) ["#if A".toList, "#else".toList, "#endif".toList]).2
    (by decide)
  exact ⟨by decide +kernel, stopped.1, stopped.2.1, whole.2.1⟩

end Conditionals.Fold
