import Zbacs.Agent.Polling.Theorems
import Zbacs.Agent.Reference

namespace Zbacs.Agent

open Zbacs.Lib Zbacs.Core Zbacs.Proto Zbacs.Session

section Runs

variable {L : Libraries} {kid : FixedBytes 16} {index : Nat} {q : Zbacs.Relay.Queued}

theorem loopOver_final {s : Loops} (h : LoopOver index s) (turns : List LoopTurn) :
    LoopOver index (final (Loops.turn L kid) turns s) :=
  final_invariant h (fun _ _ => loopOver_step) turns

-- What waits for a loop waits until the loop is over or nobody can have it.
theorem waits_final {s : Loops} (h : WaitsFor L kid q index s) (turns : List LoopTurn)
    (hclear : ∀ x ∈ trace (Loops.turn L kid) turns s, Clear L kid x) :
    WaitsFor L kid q index (final (Loops.turn L kid) turns s) ∨
      LoopOver index (final (Loops.turn L kid) turns s) ∨
      ∃ x ∈ trace (Loops.turn L kid) turns s, Drops kid q x := by
  induction turns generalizing s with
  | nil => exact .inl h
  | cons a turns ih =>
      obtain ⟨hstep, hrest⟩ := List.forall_mem_cons.mp hclear
      rcases waits_step h hstep with hwaits | hended | hdrops
      · rcases ih hwaits hrest with hwaits' | hended | ⟨x, hx, hdrops⟩
        · exact .inl hwaits'
        · exact .inr (.inl hended)
        · exact .inr (.inr ⟨x, List.mem_cons_of_mem _ hx, hdrops⟩)
      · exact .inr (.inl (loopOver_final hended turns))
      · exact .inr (.inr ⟨_, List.mem_cons_self, hdrops⟩)

-- In a run every message handed out gets to the loop it is for, exactly when no read empties the
-- inbox of another loop's message. Then nothing but its age or a lost response takes a message
-- from the loop it waits for.
theorem messages_reach_their_loops (L : Libraries) (kid : FixedBytes 16) (r : Zbacs.Relay)
    (turns : List LoopTurn) :
    ((∀ x ∈ trace (Loops.turn L kid) turns ⟨r, []⟩, Reaches L x) ↔
      ∀ x ∈ trace (Loops.turn L kid) turns ⟨r, []⟩, Clear L kid x) ∧
    ((∀ x ∈ trace (Loops.turn L kid) turns ⟨r, []⟩, Clear L kid x) →
      ∀ before after, turns = before ++ after → ∀ q index,
        WaitsFor L kid q index (final (Loops.turn L kid) before ⟨r, []⟩) →
        WaitsFor L kid q index (final (Loops.turn L kid) turns ⟨r, []⟩) ∨
          LoopOver index (final (Loops.turn L kid) turns ⟨r, []⟩) ∨
          ∃ x ∈ trace (Loops.turn L kid) after (final (Loops.turn L kid) before ⟨r, []⟩),
            Drops kid q x) := by
  refine ⟨⟨fun h x hx => ?_, fun h x hx => ?_⟩, ?_⟩
  · obtain ⟨before, a, after, -, rfl⟩ := exists_of_mem_trace hx
    exact clear_of_reaches (h _ hx)
  · obtain ⟨before, a, after, -, rfl⟩ := exists_of_mem_trace hx
    exact reaches_of_clear (h _ hx)
  · rintro hclear before after rfl q index hwaits
    rw [trace_append] at hclear
    rw [final_append]
    exact waits_final hwaits after fun x hx => hclear x (List.mem_append_right _ hx)

end Runs

namespace Reference

-- Two files are asked for at once, and the answer for the second arrives.
def wanted : Target := ⟨.replicate 32 1, .replicate 32 2, [0x01, 0x02]⟩

def elsewhere : Target := ⟨.replicate 32 3, .replicate 32 4, [0x01, 0x02]⟩

def otherNonce : FixedBytes 16 := .replicate 16 0x42

def arrival : Zbacs.Relay.Instant := ⟨111, 0, Nat.pow_pos (Nat.succ_pos 9)⟩

def approval : AccessGrantTerms := terms wanted .readOnly 1

def delivered : LoopTurn :=
  .queue (.device device.kid) .grant (answer approval none).body (.replicate 16 1) arrival

def holding : Zbacs.Relay :=
  Zbacs.Relay.new.enqueue (.device device.kid) .grant (answer approval none).body (.replicate 16 1)
    arrival

def reading : LoopRound := ⟨false, 2000, .answered, arrival, fun _ => .valid, 120⟩

theorem drain_holding : (holding.drain (.device device.kid) arrival).1 = [answer approval none] := by
  simp [holding, Zbacs.Relay.drain, Zbacs.Relay.enqueue, Zbacs.Relay.new,
    Zbacs.Relay.Instant.durationSince]
  rfl

theorem heeds_approval : (Loop.asking (asking wanted false) nonce false).heeds libraries
    (answer approval none) = true := by
  have hclass : classify libraries (answer approval none) nonce (asking wanted false).target
      (asking wanted false).ourKeyHash = _ := classify_answer (.inl rfl) none
  simp only [Loop.heeds, hclass]
  rfl

-- The other request goes on waiting.
theorem next_elsewhere : (Loop.asking (asking elsewhere false) otherNonce false).next libraries reading
    (some [answer approval none]) = .asking (asking elsewhere false) otherNonce false := by
  have hclass : classify libraries (answer approval none) otherNonce (asking elsewhere false).target
      (asking elsewhere false).ourKeyHash = .notOurs := classify_otherNonce (by decide) _ _ _ _
  have hsettle : List.findSome? (settle libraries (asking elsewhere false) otherNonce
      (reading.poll (some [answer approval none]))) [answer approval none] = none := by
    rw [List.findSome?_eq_none_iff]
    rintro e he
    obtain rfl := List.mem_singleton.mp he
    exact settle_eq_none.mpr hclass
  have hround : askLoop libraries (asking elsewhere false) otherNonce
      [reading.poll (some [answer approval none])] false = none := by
    rw [askLoop, if_neg (by decide), if_neg (by decide)]
    simp only [LoopRound.poll, Option.getD_some] at hsettle ⊢
    simp only [hsettle]
    rfl
  simp only [Loop.next, hround]
  rfl

def together : List LoopTurn :=
  [.loop (.start (.ask (asking elsewhere false) otherNonce)),
    .loop (.start (.ask (asking wanted false) nonce)), delivered]

-- The other request reads first. The answer is gone, and both requests still wait.
theorem answer_eaten :
    (¬ ∀ x ∈ trace (Loops.turn libraries device.kid) (together ++ [.loop (.resume 0 reading)])
      ⟨Zbacs.Relay.new, []⟩, Reaches libraries x) ∧
    (final (Loops.turn libraries device.kid) (together ++ [.loop (.resume 0 reading)])
      ⟨Zbacs.Relay.new, []⟩).shared.queues (.device device.kid) = [] ∧
    (final (Loops.turn libraries device.kid) (together ++ [.loop (.resume 0 reading)])
      ⟨Zbacs.Relay.new, []⟩).threads = [.asking (asking elsewhere false) otherNonce false,
        .asking (asking wanted false) nonce false] := by
  let two : Loops := ⟨holding, [.asking (asking elsewhere false) otherNonce false,
    .asking (asking wanted false) nonce false]⟩
  have htwo : final (Loops.turn libraries device.kid) together ⟨Zbacs.Relay.new, []⟩ = two := rfl
  have hrun := @Loop.run_answered libraries device.kid (.asking (asking elsewhere false) otherNonce false)
    reading holding rfl rfl
  rw [show reading.clock = arrival from rfl, drain_holding, next_elsewhere] at hrun
  have hturn : Loops.turn libraries device.kid two (.loop (.resume 0 reading)) = _ :=
    @Threads.turn_resume _ _ _ _ _ Loop.enter (Loop.run libraries device.kid) two 0 reading _ rfl
  rw [hrun] at hturn
  refine ⟨fun h => ?_, ?_, ?_⟩
  · have hreaches := h _ (taken_mem_trace together (.loop (.resume 0 reading)) [] _)
    rw [htwo] at hreaches
    obtain ⟨⟨round, hinput⟩, -⟩ := hreaches _ (answered_read rfl rfl rfl) 1 _ rfl [] _ []
      drain_holding (by simp) heeds_approval
    cases hinput
  · rw [final_append, htwo, final, hturn]
    simp only [final, Zbacs.Relay.drain, Function.update_self]
  · rw [final_append, htwo, final, hturn]
    rfl

theorem clear_alone {x : LoopStep} (h : x.before.threads.length ≤ 1) : Clear libraries device.kid x := by
  intro index round loop _ hloop _ _ other loop' hne hother
  have hindex := (List.getElem?_eq_some_iff.mp hloop).1
  have hlt := (List.getElem?_eq_some_iff.mp hother).1
  omega

-- With one request out, its answer gets there.
theorem answer_reached : ∃ turns,
    (∀ x ∈ trace (Loops.turn libraries device.kid) turns ⟨Zbacs.Relay.new, []⟩, Reaches libraries x) ∧
    ∃ x ∈ trace (Loops.turn libraries device.kid) turns ⟨Zbacs.Relay.new, []⟩,
      ∃ read ∈ x.output, answer approval none ∈ read.looked := by
  let begun : List LoopTurn := [.loop (.start (.ask (asking wanted false) nonce)), delivered]
  let one : Loops := ⟨holding, [.asking (asking wanted false) nonce false]⟩
  have hone : final (Loops.turn libraries device.kid) begun ⟨Zbacs.Relay.new, []⟩ = one := rfl
  have hclear : ∀ x ∈ trace (Loops.turn libraries device.kid)
      (begun ++ [.loop (.resume 0 reading)]) ⟨Zbacs.Relay.new, []⟩, Clear libraries device.kid x := by
    rw [trace_append, hone]
    simp only [begun, trace, List.cons_append, List.nil_append, List.forall_mem_cons]
    exact ⟨clear_alone (Nat.zero_le 1), clear_alone (Nat.le_refl 1), clear_alone (Nat.le_refl 1), by simp⟩
  have hreaches := (messages_reach_their_loops libraries device.kid _ _).1.mpr hclear
  have hmem := @taken_mem_trace _ _ _ (Loops.turn libraries device.kid) begun
    (.loop (.resume 0 reading)) [] ⟨Zbacs.Relay.new, []⟩
  have hlast := hreaches _ hmem
  rw [hone] at hmem hlast
  have hread := @answered_read libraries device.kid one 0 _ reading rfl rfl rfl
  exact ⟨_, hreaches, _, hmem, _, hread,
    (hlast _ hread 0 _ rfl [] _ [] drain_holding (by simp) heeds_approval).2⟩

end Reference

end Zbacs.Agent
