import Nrxp.Bridge.Fingerprints

/-!
# What an observer makes of a server's hello

The answer to a client's hello, as the parsers of the bridge read it. Nothing a client draws shows
in it: the cipher suite is settled by the two profiles, for a server lists no GREASE values and thus
never settles on one, and the extensions and the length are the same for all of its clients.
-/

open ExtensionBuilder TlsBridge

/-! ### Settling on a cipher suite -/

/-- The suite two sides settle on: the first one that the deciding side lists and the other has, and
TLS_AES_128_GCM_SHA256 if they have none in common. -/
def Settles (deciding other : List UInt16) (suite : UInt16) : Prop :=
  (suite ∈ other ∧ ∃ before after, deciding = before ++ suite :: after ∧ ∀ s ∈ before, s ∉ other) ∨
    (suite = 0x1301 ∧ ∀ s ∈ deciding, s ∉ other)

namespace Settles

variable {deciding other : List UInt16}

/-- A search through the list of the deciding side settles. -/
theorem find (deciding other : List UInt16) :
    Settles deciding other ((deciding.find? fun s ↦ other.contains s).getD 0x1301) := by
  cases hfind : deciding.find? fun s ↦ other.contains s with
  | none =>
    refine Or.inr ⟨rfl, fun s hs hmem ↦ ?_⟩
    exact List.find?_eq_none.mp hfind s hs (List.contains_iff_mem.mpr hmem)
  | some suite =>
    obtain ⟨hsuite, before, after, hsplit, hbefore⟩ := List.find?_eq_some_iff_append.mp hfind
    refine Or.inl ⟨List.contains_iff_mem.mp hsuite, before, after, hsplit, fun s hs hmem ↦ ?_⟩
    have hmiss := hbefore s hs
    rw [List.contains_iff_mem.mpr hmem] at hmiss
    cases hmiss

/-- A value that the other side does not have makes no difference at the front. -/
theorem of_cons {v suite : UInt16} (hv : v ∉ other) (h : Settles (v :: deciding) other suite) :
    Settles deciding other suite := by
  obtain ⟨hmem, before, after, hsplit, hbefore⟩ | ⟨hsuite, hmiss⟩ := h
  · cases before with
    | nil =>
      rw [List.nil_append, List.cons.injEq] at hsplit
      exact absurd (hsplit.1 ▸ hmem) hv
    | cons b before =>
      rw [List.cons_append, List.cons.injEq] at hsplit
      exact Or.inl ⟨hmem, before, after, hsplit.2,
        fun s hs ↦ hbefore s (List.mem_cons_of_mem b hs)⟩
  · exact Or.inr ⟨hsuite, fun s hs ↦ hmiss s (List.mem_cons_of_mem v hs)⟩

/-- A value that the deciding side does not list makes no difference to what the other has. -/
theorem of_other_cons {v suite : UInt16} (hv : v ∉ deciding)
    (h : Settles deciding (v :: other) suite) : Settles deciding other suite := by
  obtain ⟨hmem, before, after, hsplit, hbefore⟩ | ⟨hsuite, hmiss⟩ := h
  · have hne : suite ≠ v := by
      rintro rfl
      exact hv (hsplit ▸ List.mem_append_right before List.mem_cons_self)
    exact Or.inl ⟨(List.mem_cons.mp hmem).resolve_left hne, before, after, hsplit,
      fun s hs hs' ↦ hbefore s hs (List.mem_cons_of_mem v hs')⟩
  · exact Or.inr ⟨hsuite, fun s hs hs' ↦ hmiss s hs (List.mem_cons_of_mem v hs')⟩

/-- The search finds the suite settled on. -/
theorem find_eq {suite : UInt16} (h : Settles deciding other suite) :
    (deciding.find? fun s ↦ other.contains s).getD 0x1301 = suite := by
  obtain ⟨hmem, before, after, hsplit, hbefore⟩ | ⟨rfl, hmiss⟩ := h
  · have hfind : (deciding.find? fun s ↦ other.contains s) = some suite := by
      refine List.find?_eq_some_iff_append.mpr
        ⟨List.contains_iff_mem.mpr hmem, before, after, hsplit, fun s hs ↦ ?_⟩
      rw [Bool.not_eq_true', ← Bool.not_eq_true, List.contains_iff_mem]
      exact hbefore s hs
    rw [hfind, Option.getD_some]
  · have hfind : (deciding.find? fun s ↦ other.contains s) = none :=
      List.find?_eq_none.mpr fun s hs hmem ↦ hmiss s hs (List.contains_iff_mem.mp hmem)
    rw [hfind, Option.getD_none]

end Settles

/-- The suite a server and a client settle on, the one or the other deciding. -/
def ServerProfile.SettlesWith (server : ServerProfile) (suites : List UInt16) (suite : UInt16) :
    Prop :=
  if server.honorCipherOrder then Settles server.cipherSuites suites suite
  else Settles suites server.cipherSuites suite

/-- The search of the deciding side settles. -/
theorem ServerProfile.settlesWith_find (server : ServerProfile) (suites : List UInt16) :
    server.SettlesWith suites (if server.honorCipherOrder then
      (server.cipherSuites.find? fun suite ↦ suites.contains suite).getD 0x1301
    else (suites.find? fun suite ↦ server.cipherSuites.contains suite).getD 0x1301) := by
  unfold ServerProfile.SettlesWith
  split
  · exact Settles.find server.cipherSuites suites
  · exact Settles.find suites server.cipherSuites

namespace ServerProfile.SettlesWith

/-- A GREASE value makes no difference to a server that lists none. -/
theorem of_withGreaseValue {server : ServerProfile}
    (hsuites : ∀ s ∈ server.cipherSuites, TlsExtensions.isGrease s = false) {hasGrease : Bool}
    {v : GreaseValue} {suites : List UInt16} {suite : UInt16}
    (h : server.SettlesWith (withGreaseValue hasGrease v suites) suite) :
    server.SettlesWith suites suite := by
  cases hasGrease with
  | false => exact h
  | true =>
    have hv : v.val ∉ server.cipherSuites := fun hmem ↦ by
      have hgrease := hsuites v.val hmem
      rw [v.property] at hgrease
      cases hgrease
    unfold ServerProfile.SettlesWith at h ⊢
    split
    · rw [if_pos ‹_›] at h
      exact Settles.of_other_cons hv h
    · rw [if_neg ‹_›] at h
      exact Settles.of_cons hv h

/-- There is one suite a server and a client settle on. -/
theorem unique {server : ServerProfile} {suites : List UInt16} {suite suite' : UInt16}
    (h : server.SettlesWith suites suite) (h' : server.SettlesWith suites suite') :
    suite = suite' := by
  unfold ServerProfile.SettlesWith at h h'
  split at h
  · rw [if_pos ‹_›] at h'
    exact h.find_eq.symm.trans h'.find_eq
  · rw [if_neg ‹_›] at h'
    exact h.find_eq.symm.trans h'.find_eq

end ServerProfile.SettlesWith

/-! ### The answer -/

namespace ServerHello

/-- The suite of an answer is the one settled on. -/
theorem settlesWith_fromClientHello (base : ClientHello) (key salt : ByteArr 32)
    (server : ServerProfile) :
    server.SettlesWith base.cipherSuites
      (fromClientHello base key.val salt server).cipherSuite :=
  server.settlesWith_find base.cipherSuites

/-- The bytes of an answer, its record included. -/
theorem length_makeServerHello {base : ClientHello} (hsid : base.sessionId.length = 32)
    (key salt : ByteArr 32) (server : ServerProfile) :
    (makeServerHello base key.val salt server).length = 127 := by
  have hblock : (fromClientHello base key.val salt server).extensions.length = 46 :=
    length_extensions_fromClientHello base key salt server
  have hbody : (fromClientHello base key.val salt server).serialize.length = 122 := by
    rw [length_serialize_eq, hblock]
    show 4 + (2 + 32 + 1 + base.sessionId.length + 2 + 1 + 2) + 46 = 122
    rw [hsid]
  show (TlsRecord.new .handshake server.recordLayerVersion _).serialize.length = 127
  rw [TlsRecord.length_serialize]
  show 5 + (fromClientHello base key.val salt server).serialize.length = 127
  rw [hbody]

end ServerHello

variable {profile : BrowserProfile} {server : ServerProfile}

/-- **What a server answers is settled by the two profiles**: its cipher suite is the first of the
deciding side's that the other lists, whatever the client drew, and its extensions and its length
are those of every answer. The session id is the client's, and only the salt and the key are the
server's own. -/
theorem server_answer (hfits : profile.Fits)
    (hsuites : ∀ s ∈ server.cipherSuites, TlsExtensions.isGrease s = false) :
    ∃ suite, server.SettlesWith profile.cipherSuites suite ∧
      ∀ (host : String), (utf8 host).length ≤ 253 →
        ∀ (hmac : HmacSha256) (now : UInt64) (keys : SessionKeys) (rng : OsRng)
          (key salt : ByteArr 32) (rest : Bytes),
          ∃ hello stack reply answer,
            observe (ClientHello.makeClientHello hmac now profile host keys rng).1
              = some (hello, stack) ∧
            answer = ServerHello.makeServerHello hello key.val salt server ∧
            unpackHandshake (answer ++ rest)
              = (.ok (some (.server reply (.ofEntries (ServerHello.entriesOf server key)))), rest) ∧
            reply.version = .tls12 ∧ reply.random = salt ∧ reply.sessionId = hello.sessionId ∧
            reply.cipherSuite = suite ∧ answer.length = 127 := by
  refine ⟨_, server.settlesWith_find profile.cipherSuites,
    fun host hhost hmac now keys rng key salt rest ↦ ?_⟩
  obtain ⟨hello, es, hread, -, hsid, hoffered, -⟩ :=
    ClientHello.exists_observed hfits hhost hmac now keys rng
  have hsettled := ServerHello.settlesWith_fromClientHello hello key salt server
  rw [hoffered] at hsettled
  exact ⟨hello, .ofEntries es, _, _, hread, rfl,
    unpackHandshake_fromClientHello hsid key salt server rest, rfl, rfl, rfl,
    (hsettled.of_withGreaseValue hsuites).unique (server.settlesWith_find profile.cipherSuites),
    ServerHello.length_makeServerHello hsid key salt server⟩

/-- The server profiles of the repository list no GREASE value. -/
theorem ServerProfile.isGrease_eq_false {server : ServerProfile} (h : server ∈ [modern, compat]) :
    ∀ s ∈ server.cipherSuites, TlsExtensions.isGrease s = false := by
  have hall : ([modern, compat].all fun server ↦
      server.cipherSuites.all fun s ↦ !TlsExtensions.isGrease s) = true := by
    decide
  intro s hs
  have hgrease := List.all_eq_true.mp (List.all_eq_true.mp hall server h) s hs
  rwa [Bool.not_eq_true'] at hgrease

/-- The profiles in use settle on the suite both prefer. -/
theorem server_answer_chrome140 :
    ∃ hello stack reply replyStack,
      observe (ClientHello.makeClientHello .sum 0 .chrome140 "example.com"
        (SessionKeys.new .sum true (.repeating 1)).1 (.repeating 3)).1 = some (hello, stack) ∧
      unpackHandshake (ServerHello.makeServerHello hello (ByteArr.zero 32).val (.zero 32) .modern)
        = (.ok (some (.server reply replyStack)), []) ∧
      ServerProfile.modern.SettlesWith BrowserProfile.chrome140.cipherSuites reply.cipherSuite := by
  obtain ⟨suite, hsettled, hanswer⟩ := @server_answer .chrome140 .modern
    (BrowserProfile.shipped_fits .chrome140 List.mem_cons_self)
    (ServerProfile.isGrease_eq_false List.mem_cons_self)
  obtain ⟨hello, stack, reply, answer, hread, rfl, hreply, -, -, -, hsuite, -⟩ :=
    hanswer "example.com" (by decide) .sum 0 (SessionKeys.new .sum true (.repeating 1)).1
      (.repeating 3) (.zero 32) (.zero 32) []
  rw [List.append_nil] at hreply
  exact ⟨hello, stack, reply, _, hread, hreply, hsuite ▸ hsettled⟩
