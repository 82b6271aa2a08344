import Nrxp.Lib.Bytes
import Mathlib.Data.List.Infix

/-!
# Incremental parsers

A parser that takes one message off a buffer that grows at its end. `Incremental` is the contract a
reader of a byte stream relies on: a parser that has no answer leaves the buffer as it was, and an
answer stands when more has arrived. From these two alone follows how a parser meets a stream that
begins with a message it knows: `Incremental.arrived` says that it takes the message off exactly
when the message is there in full, wherever the stream was cut.

A parser often comes with a test that says beforehand whether it will have an answer.
`ParserContract` is what such a pair promises, of one buffer and not of a growing one. It is built
from two properties that follow the code: what takes from the front only (`TakesFront`), and what
has an answer (`Answers`).
-/

variable {β ε α γ : Type}

/-- The contract of a parser that reads from a growing buffer. -/
structure Incremental (m : Exec (List β) ε (Option α)) : Prop where
  /-- Without an answer nothing is taken. -/
  keeps : ∀ b, (m b).1 = .ok none → (m b).2 = b
  /-- An answer stands when more has arrived, and leaves it alone. -/
  append : ∀ b, (m b).1 ≠ .ok none → ∀ more, m (b ++ more) = ((m b).1, (m b).2 ++ more)

namespace Incremental

variable {m : Exec (List β) ε (Option α)} {r : Outcome ε (Option α)} {whole b : List β}

theorem eq_of_none (hm : Incremental m) (h : (m b).1 = .ok none) : m b = (.ok none, b) :=
  Prod.ext h (hm.keeps b h)

/-- A message that is there in full is taken off, whatever follows. -/
theorem of_whole (hm : Incremental m) (hwhole : m whole = (r, [])) (hr : r ≠ .ok none)
    (more : List β) : m (whole ++ more) = (r, more) := by
  have happ := hm.append whole (by rw [hwhole]; exact hr) more
  rwa [hwhole, List.nil_append] at happ

/-- A message that is not there in full is waited for: an answer would have left nothing for the
rest of it. -/
theorem of_partial (hm : Incremental m) (hwhole : m whole = (r, [])) {more : List β}
    (hsplit : b ++ more = whole) (hne : more ≠ []) : m b = (.ok none, b) := by
  by_contra hanswer
  have happ := hm.append b (fun h ↦ hanswer (hm.eq_of_none h)) more
  rw [hsplit, hwhole] at happ
  have hnil := congrArg Prod.snd happ
  exact hne (List.append_eq_nil_iff.mp hnil.symm).2

/-- **A stream that begins with a message**, cut anywhere: the message has arrived and is taken off,
or a part of it has, and the parser waits. -/
theorem arrived (hm : Incremental m) (hwhole : m whole = (r, [])) (hr : r ≠ .ok none)
    {unread rest : List β} (h : b ++ unread = whole ++ rest) :
    (∃ more, b = whole ++ more ∧ more ++ unread = rest ∧ m b = (r, more)) ∨
      (b.length < whole.length ∧ m b = (.ok none, b)) := by
  rcases List.append_eq_append_iff.mp h with ⟨more, rfl, rfl⟩ | ⟨more, rfl, rfl⟩
  · rcases more with - | ⟨x, more⟩
    · rw [List.append_nil] at hwhole ⊢
      exact Or.inl ⟨[], (List.append_nil b).symm, rfl, hwhole⟩
    · refine Or.inr ⟨?_, hm.of_partial hwhole rfl (List.cons_ne_nil x more)⟩
      rw [List.length_append, List.length_cons]
      omega
  · exact Or.inl ⟨more, rfl, rfl, hm.of_whole hwhole hr more⟩

/-- Handing what was parsed to a handler that always answers. -/
theorem handle (hm : Incremental m) {f : Option α → Exec (List β) ε (Option γ)}
    (hnone : f none = pure none) (hsome : ∀ a, ∃ o, o ≠ .ok none ∧ f (some a) = Exec.lift o) :
    Incremental (m >>= f) where
  keeps b h := by
    rcases hrun : m b with ⟨(- | a) | e | _, rest⟩
    · rw [Exec.bind_ok hrun, hnone]
      show rest = b
      have hkeep := hm.keeps b (by rw [hrun])
      rwa [hrun] at hkeep
    · obtain ⟨o, hne, hf⟩ := hsome a
      rw [Exec.bind_ok hrun, hf] at h
      exact absurd h hne
    · rw [Exec.bind_err hrun] at h
      cases h
    · rw [Exec.bind_panic hrun] at h
      cases h
  append b h more := by
    have hanswer : (m b).1 ≠ .ok none := fun hrun ↦ h <| by
      rw [Exec.bind_ok (hm.eq_of_none hrun), hnone]
      rfl
    have happ := hm.append b hanswer more
    rcases hrun : m b with ⟨(- | a) | e | _, rest⟩ <;> rw [hrun] at happ hanswer
    · exact absurd rfl hanswer
    · obtain ⟨o, -, hf⟩ := hsome a
      rw [Exec.bind_ok hrun, Exec.bind_ok happ, hf]
      rfl
    · rw [Exec.bind_err hrun, Exec.bind_err happ]
    · rw [Exec.bind_panic hrun, Exec.bind_panic happ]

end Incremental

/-! ### Parsers that come with a test -/

/-- A computation that takes from the front of the buffer only, also when it fails. -/
def TakesFront (m : Exec (List β) ε α) : Prop := ∀ b, (m b).2 <:+ b

namespace TakesFront

theorem pure (a : α) : TakesFront (Pure.pure a : Exec (List β) ε α) := fun _ ↦ List.suffix_rfl

theorem lift (o : Outcome ε α) : TakesFront (Exec.lift o : Exec (List β) ε α) :=
  fun _ ↦ List.suffix_rfl

theorem throw (e : ε) : TakesFront (Exec.throw e : Exec (List β) ε α) := fun _ ↦ List.suffix_rfl

theorem get : TakesFront (Exec.get : Exec (List β) ε (List β)) := fun _ ↦ List.suffix_rfl

theorem bind {m : Exec (List β) ε α} {f : α → Exec (List β) ε γ} (hm : TakesFront m)
    (hf : ∀ a, TakesFront (f a)) : TakesFront (m >>= f) := by
  intro b
  have hb := hm b
  rcases hrun : m b with ⟨a | e | _, rest⟩ <;> rw [hrun] at hb
  · rw [Exec.bind_ok hrun]
    exact (hf a rest).trans hb
  · rw [Exec.bind_err hrun]
    exact hb
  · rw [Exec.bind_panic hrun]
    exact hb

theorem ite {p : Prop} [Decidable p] {m m' : Exec (List β) ε α} (hm : TakesFront m)
    (hm' : TakesFront m') : TakesFront (if p then m else m') := by
  split
  · exact hm
  · exact hm'

theorem remaining : TakesFront (Buf.remaining : Exec Bytes ε ℕ) := fun _ ↦ List.suffix_rfl

theorem byteAt (i : ℕ) : TakesFront (Buf.byteAt i : Exec Bytes ε UInt8) := fun _ ↦ List.suffix_rfl

theorem slice (i n : ℕ) : TakesFront (Buf.slice i n : Exec Bytes ε Bytes) := by
  intro b
  rw [Buf.slice]
  split <;> exact List.suffix_rfl

theorem splitTo (n : ℕ) : TakesFront (Buf.splitTo n : Exec Bytes ε Bytes) := by
  intro b
  rw [Buf.splitTo]
  split
  · exact List.drop_suffix n b
  · exact List.suffix_rfl

theorem advance (n : ℕ) : TakesFront (Buf.advance n : Exec Bytes ε Unit) :=
  (splitTo n).bind fun _ ↦ pure ()

theorem copyToSlice (n : ℕ) : TakesFront (Buf.copyToSlice n : Exec Bytes ε (ByteArr n)) :=
  (splitTo n).bind fun _ ↦ lift _

theorem getU8 : TakesFront (Buf.getU8 : Exec Bytes ε UInt8)
  | [] => List.suffix_rfl
  | x :: xs => List.suffix_cons x xs

theorem getU16 : TakesFront (Buf.getU16 : Exec Bytes ε UInt16) := (splitTo 2).bind fun _ ↦ pure _

theorem getU24 : TakesFront (Buf.getU24 : Exec Bytes ε ℕ) :=
  getU8.bind fun _ ↦ getU8.bind fun _ ↦ getU8.bind fun _ ↦ pure _

end TakesFront

/-- A computation that has an answer, if it does not fail. -/
def Answers (m : Exec (List β) ε (Option α)) : Prop := ∀ b, (m b).1 ≠ .ok none

namespace Answers

theorem some (a : α) : Answers (Pure.pure (.some a) : Exec (List β) ε (Option α)) :=
  fun _ h ↦ by cases h

theorem throw (e : ε) : Answers (Exec.throw e : Exec (List β) ε (Option α)) := fun _ h ↦ by cases h

theorem lift {o : Outcome ε (Option α)} (h : o ≠ .ok none) :
    Answers (Exec.lift o : Exec (List β) ε (Option α)) := fun _ ↦ h

/-- It is what comes last that answers. -/
theorem bind {m : Exec (List β) ε γ} {f : γ → Exec (List β) ε (Option α)}
    (hf : ∀ a, Answers (f a)) : Answers (m >>= f) := by
  intro b
  rcases hrun : m b with ⟨a | e | _, rest⟩
  · rw [Exec.bind_ok hrun]
    exact hf a rest
  · rw [Exec.bind_err hrun]
    exact fun h ↦ by cases h
  · rw [Exec.bind_panic hrun]
    exact fun h ↦ by cases h

end Answers

/-- The contract of a parser and its test. The test always answers and never moves the cursor; when
it says no, the parser waits and takes nothing; when it says yes, the parser has an answer; and the
parser takes from the front only. -/
structure ParserContract (canParse : Exec (List β) ε Bool) (parse : Exec (List β) ε (Option α)) :
    Prop where
  decides : ∀ b, (canParse b = (.ok false, b) ∧ parse b = (.ok none, b)) ∨
    (canParse b = (.ok true, b) ∧ (parse b).1 ≠ .ok none)
  takesFront : TakesFront parse

/-- A parser that asks its test first, and reads on only if it says yes. -/
theorem ParserContract.of_guard {canParse : Exec (List β) ε Bool}
    {read : Exec (List β) ε (Option α)} (htest : ∀ b, ∃ ready, canParse b = (.ok ready, b))
    (hread : Answers read) (hfront : TakesFront read) :
    ParserContract canParse (canParse >>= fun ready ↦ if !ready then pure none else read) where
  decides b := by
    obtain ⟨- | -, hready⟩ := htest b <;> rw [Exec.bind_ok hready]
    · exact Or.inl ⟨hready, rfl⟩
    · exact Or.inr ⟨hready, hread b⟩
  takesFront b := by
    obtain ⟨- | -, hready⟩ := htest b <;> rw [Exec.bind_ok hready]
    · exact List.suffix_rfl
    · exact hfront b
