import Solwright.Proofs.Library.Closure
import Solwright.Proofs.Session.Documented
import Solwright.Proofs.Tools.Answers
import Solwright.Proofs.Written.EveryText

/-! Which faults escape the tools. Of a compiler that keeps to its documentation they are few: limits
of reading, of time and of paths, and values that cannot be arguments. -/

namespace Solwright.Tools

open Session

variable {s : Session} {f : Fault}

/-- The faults that may escape a call where the compiler keeps to its documentation. -/
def Call.MayRaise : Call → Fault → Prop
  | .generate _, f => ∃ reason, f = .tooDeep reason
  | .compile _ _, f => f = .timedOut ∨ f.IsBadPath
  | .build _, f => (∃ reason, f = .tooDeep reason) ∨ f = .timedOut ∨ f = .pathTooLong
  | .prepare _, f => (∃ reason, f = .tooDeep reason) ∨ f = .timedOut ∨ f = .pathTooLong ∨
      f = .tooLarge ∨ f = .outOfMemory ∨ f = .encoding .unreadableType ∨ f = .encoding .wrongKind ∨
      f = .encoding .outOfRange
  | .compileWritten _, f => (∃ reason, f = .tooDeep reason) ∨ (∃ reason, f = .badValue reason) ∨
      (∃ r, f = .rejection r) ∨ f = .timedOut ∨ f = .pathTooLong

section Texts

open WrittenContract

/-- A reply that cannot be used is told of, unless it meets a limit of reading. -/
theorem failsOnly_ofReply (limit : Nat) (reply : Option String) :
    FailsOnly (fun f => (∃ reason : String, f = .failure (.notInterpreted reason)) ∨ f.IsLimit)
      (ofReply limit reply) := by
  by_cases hlimit : ReachesLimit (Json.read limit) (candidates (reply.getD "").toList)
  · obtain ⟨f, hf, hfault⟩ := ofReply_of_reachesLimit hlimit
    rw [hf]
    exact .error (.inr hfault)
  · rcases ofReply_of_not_reachesLimit hlimit with ⟨c, hc, -⟩ | ⟨reason, hreason⟩
    · rw [hc]
      exact .ok _
    · rw [hreason]
      exact .error (.inl ⟨_, rfl⟩)

/-- So is a text that need not be well formed, unless it meets such a limit or its code is not well formed. -/
theorem failsOnly_ofText (limit : Nat) (text : RawText) :
    FailsOnly (fun f => (∃ e, f = .failure e) ∨ f.IsLimit ∨ ∃ r, f = .rejection r) (ofText limit text) := by
  by_cases hlimit : ReachesLimit (reading limit text) (candidates (searched text))
  · obtain ⟨f, hf, hfault⟩ := ofText_of_reachesLimit hlimit
    rw [hf]
    exact .error (.inr (.inl hfault))
  by_cases hcode : (∀ t ∈ candidates (searched text), ¬HoldsCode (reading limit text) t) →
      (minedCode text).isFormed = true
  · rcases ofText_of_not_reachesLimit hlimit hcode with ⟨c, hc, -⟩ | ⟨reason, hreason⟩
    · rw [hc]
      exact .ok _
    · rw [hreason]
      exact .error (.inl ⟨_, rfl⟩)
  · obtain ⟨hobject, hcode⟩ := Classical.not_imp.1 hcode
    rw [(ofText_of_illFormed hlimit hobject (by simpa using hcode)).2]
    exact .error (.inr (.inr ⟨_, rfl⟩))

end Texts

theorem Escapes.mayRaise {c : Call} (h : Escapes s c f)
    (hruns : ∀ n, (s.outside.runs n).outcome.IsDocumented) : c.MayRaise f := by
  cases h with
  | nested hb =>
    cases c with
    | generate => exact ⟨_, rfl⟩
    | build | prepare => exact .inl ⟨_, rfl⟩
    | compile | compileWritten => cases hb
  | unreadable hf hread =>
    rcases failsOnly_ofText _ _ _ hread with ⟨e, rfl⟩ | (hdeep | hvalue) | hrejection
    · exact absurd rfl (hf _)
    · exact .inl hdeep
    · exact .inr (.inl hvalue)
    · exact .inr (.inr (.inl hrejection))
  | halted hcompiles hloads hhalts hnot =>
    rcases hhalts.isStop hruns with rfl | rfl | rfl | rfl <;> cases hcompiles <;>
      -- a text that is no path is a wrong value, which a description's tool answers
      first
      | exact absurd (.inr ⟨rfl, rfl⟩) hnot
      | simp [Call.MayRaise, Fault.IsBadPath]
  | unencoded hr hloads ha hpayload hnot =>
    rcases Deployment.failsOnly_payload _ _ (items_of_verdict ha hruns) f hpayload with
      hfailure | (rfl | rfl) | ⟨e, rfl⟩ | ⟨reason, rfl⟩
    · exact absurd (.inl hfailure) hnot
    · simp [Call.MayRaise]
    · simp [Call.MayRaise]
    · cases e with
      | badType | noCodec | unsupportedType => exact absurd (.inr ⟨rfl, rfl⟩) hnot
      | unreadableType | wrongKind | outOfRange => simp [Call.MayRaise]
    · exact absurd (.inr ⟨rfl, rfl⟩) hnot

theorem answered (h : s.loader.Free) (c : Call) : Answered s c (c.job.run s) := by
  cases c with
  | generate b => exact answered_generate h b
  | compile source name => exact answered_compile h source name
  | build b => exact answered_build h b
  | prepare b => exact answered_prepare h b
  | compileWritten text => exact answered_compileWritten h text

/-- The session that calls lead to, one after another. -/
def after (s : Session) (calls : List Call) : Session :=
  calls.foldl (fun s c => (c.job.run s).2) s

theorem leaves_after (h : s.loader.Free) (calls : List Call) : Leaves s (after s calls) := by
  induction calls generalizing s with
  | nil => exact .refl h
  | cons c calls ih =>
    have hc : Leaves s (c.job.run s).2 := (answered h c).leaves
    exact hc.trans (ih hc.free)

end Solwright.Tools
