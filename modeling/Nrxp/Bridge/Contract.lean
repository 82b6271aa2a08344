import Nrxp.Bridge.Stalls
import Nrxp.Lib.Incremental

/-!
# The bridge keeps the contract of incremental parsers

The three ways of taking something off a read buffer share their first half, the record parser, and
end with a handler that always answers. So they keep the contract because the record parser does.
-/

namespace TlsBridge

theorem startProcess_incremental {Output : Type}
    {handleRecord : TlsRecord → Outcome TlsError (Option Output)}
    (hanswers : ∀ record, handleRecord record ≠ .ok none) :
    Incremental (startProcess handleRecord) :=
  TlsRecord.parse_incremental.handle rfl fun record ↦ ⟨_, hanswers record, rfl⟩

theorem unpackHandshake_incremental : Incremental unpackHandshake :=
  startProcess_incremental handleHandshake_ne_none

theorem unpackAppData_incremental : Incremental unpackAppData :=
  startProcess_incremental handleAppData_ne_none

theorem unpackMiddleboxCcs_incremental : Incremental unpackMiddleboxCcs :=
  startProcess_incremental handleMiddleboxCcs_ne_none

/-- All of them take from the front of the buffer only, also when they fail. -/
theorem startProcess_suffix {Output : Type}
    (handleRecord : TlsRecord → Outcome TlsError (Option Output)) (b : Bytes) :
    (startProcess handleRecord b).2 <:+ b := by
  rcases TlsRecord.parse_cases b with hparse | ⟨m, header, rest, hparse, hb, -⟩ |
    ⟨c, v1, v2, l1, l2, v, payload, rest, hparse, hb, -⟩
  · rw [startProcess, Exec.bind_ok hparse]
    exact List.suffix_rfl
  · rw [startProcess, Exec.bind_err hparse]
    exact ⟨header, hb.symm⟩
  · rw [startProcess, Exec.bind_ok hparse]
    exact ⟨c.toByte :: v1 :: v2 :: l1 :: l2 :: payload, by simp [hb]⟩

end TlsBridge
