import Mathlib.Algebra.Ring.Nat
import MultipathTools.Base.Block

/-! The buffer of a reply, which is doubled until the reply fits into it (`cli.h` and
`cli_handlers.c`). -/
namespace MultipathTools.Cli

/-- `INITIAL_REPLY_LEN`. -/
def initialReplyLen : ℕ := 1200

/-- `MAX_REPLY_LEN`. -/
def maxReplyLen : ℕ := 32 * 1024 * 1024

/-- The loop over `again`, with `REALLOC_REPLY`: the reply is printed once more as long as the
cursor is where it is if the buffer is full. No reply if the buffer is too large to be doubled.
`print` also tells where the header ends. -/
def replyLoop (print : ℕ → List Char → Outcome (List Char × ℕ × ℕ)) (full : ℕ → ℕ) :
    ℕ → List Char → ℕ → Outcome (Option (List Char × ℕ × ℕ))
  | 0, _, _ => .unfinished
  | turns + 1, reply, maxlen =>
    (print maxlen reply).bind fun (reply, header, c) =>
      if c = full maxlen then
        if maxReplyLen ≤ maxlen then .done none
        else replyLoop print full turns (reply ++ List.replicate maxlen nul) (maxlen * 2)
      else .done (some (reply, header, c))

/-- `replyLoop` from the first buffer on. -/
def growReply (print : ℕ → List Char → Outcome (List Char × ℕ × ℕ)) (full : ℕ → ℕ) (turns : ℕ) :
    Outcome (Option (List Char × ℕ × ℕ)) :=
  replyLoop print full turns (List.replicate initialReplyLen nul) initialReplyLen

/-- The size of the largest buffer. -/
def lastReplyLen : ℕ := initialReplyLen * 2 ^ 15

variable {print : ℕ → List Char → Outcome (List Char × ℕ × ℕ)} {full : ℕ → ℕ}
  {Q : List Char → ℕ → ℕ → Prop} {T : ℕ → Prop}
  (hprint : ∀ maxlen reply, 0 < maxlen → maxlen ≤ lastReplyLen → reply.length = maxlen →
    ∃ reply' header c, print maxlen reply = .done (reply', header, c) ∧ reply'.length = maxlen ∧
      (c = full maxlen → T maxlen) ∧ (c ≠ full maxlen → Q reply' header c))
  {turns maxlen : ℕ} {reply : List Char}

include hprint in
/-- One turn: the reply is there, or the buffer is doubled if it may be. -/
theorem replyLoop_step (turns : ℕ) (hpos : 0 < maxlen) (hle : maxlen ≤ lastReplyLen)
    (hlen : reply.length = maxlen) :
    (∃ reply' header c, replyLoop print full (turns + 1) reply maxlen =
      .done (some (reply', header, c)) ∧ Q reply' header c) ∨
    T maxlen ∧ ∃ reply', reply'.length = maxlen * 2 ∧
      replyLoop print full (turns + 1) reply maxlen =
        if maxReplyLen ≤ maxlen then .done none
        else replyLoop print full turns reply' (maxlen * 2) := by
  obtain ⟨reply1, header, c, hround, hlen1, hfull, htext⟩ := hprint maxlen reply hpos hle hlen
  rw [replyLoop, hround, Outcome.bind_done]
  dsimp only
  by_cases hc : c = full maxlen
  · rw [if_pos hc]
    refine .inr ⟨hfull hc, reply1 ++ List.replicate maxlen nul, ?_, rfl⟩
    rw [List.length_append, List.length_replicate, hlen1, Nat.mul_two]
  · rw [if_neg hc]
    exact .inl ⟨reply1, header, c, rfl, htext hc⟩

include hprint in
/-- The buffer is doubled until the reply fits into it, or even the largest one is full. -/
theorem replyLoop_eq {n : ℕ} (hturns : n < turns) (hmaxlen : maxlen * 2 ^ n = lastReplyLen)
    (hlen : reply.length = maxlen) :
    (∃ reply' header c, replyLoop print full turns reply maxlen =
      .done (some (reply', header, c)) ∧ Q reply' header c) ∨
    T lastReplyLen ∧ replyLoop print full turns reply maxlen = .done none := by
  have hlast : lastReplyLen = 39321600 := rfl
  have hmax : maxReplyLen = 33554432 := rfl
  induction n generalizing turns maxlen reply with
  | zero =>
    rw [Nat.pow_zero, Nat.mul_one] at hmaxlen
    obtain ⟨turns, rfl⟩ := Nat.exists_eq_succ_of_ne_zero (Nat.ne_of_gt hturns)
    obtain hfound | ⟨hfull, _, -, hnone⟩ :=
      replyLoop_step hprint turns (by omega) hmaxlen.le hlen
    · exact .inl hfound
    · rw [if_pos (by omega)] at hnone
      exact .inr ⟨hmaxlen ▸ hfull, hnone⟩
  | succ n ih =>
    rw [Nat.pow_succ', ← Nat.mul_assoc] at hmaxlen
    have htwo : 0 < 2 ^ n := Nat.two_pow_pos n
    have hpos : 0 < maxlen := by
      by_contra h
      rw [Nat.eq_zero_of_not_pos h, Nat.zero_mul] at hmaxlen
      omega
    have hle : maxlen * 2 ≤ lastReplyLen := hmaxlen ▸ Nat.le_mul_of_pos_right (maxlen * 2) htwo
    obtain ⟨turns, rfl⟩ := Nat.exists_eq_succ_of_ne_zero (Nat.ne_of_gt (Nat.zero_lt_of_lt hturns))
    obtain hfound | ⟨-, reply1, hlen1, hmore⟩ :=
      replyLoop_step hprint turns hpos (by omega) hlen
    · exact .inl hfound
    · rw [if_neg (by omega)] at hmore
      rw [hmore]
      exact ih (Nat.lt_of_succ_lt_succ hturns) hmaxlen hlen1

include hprint in
/-- The reply of a command, after at most 16 turns. -/
theorem growReply_eq (hturns : 16 ≤ turns) :
    (∃ reply header c, growReply print full turns = .done (some (reply, header, c)) ∧
      Q reply header c) ∨
    T lastReplyLen ∧ growReply print full turns = .done none :=
  replyLoop_eq hprint (n := 15) hturns rfl List.length_replicate

end MultipathTools.Cli
