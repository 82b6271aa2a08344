import Nrxp.Session.Safety
import Mathlib.Data.Prod.Lex

/-!
# Sessions come to an end

From every session that a faithful network leads to, deliveries and reads alone lead to one in which
everything submitted was returned. What decreases is first how far the two sides are from reading
frames, then the bytes on their way and the frames not returned yet; a session in which neither can
decrease is complete.
-/

open TlsBridge

/-- How far a side is from reading frames. -/
def Phase.rank : Phase → ℕ
  | hello => 2
  | ccs _ => 1
  | data _ => 0

/-- An event of the network or of a reader. -/
def Event.IsDelivery : Event → Prop
  | feed _ => True
  | read _ => True
  | send _ _ => False

namespace Session

/-- Both sides read frames, and everything submitted was returned. -/
def Complete (s : Session) : Prop :=
  ∀ side : Side, (∃ codec, (s.endpoint side).phase = .data codec) ∧
    (s.endpoint side).returned.map Frame.item = (s.endpoint side.other).submitted

/-- Bytes on their way to a side, and frames it has not returned yet. -/
def missing (s : Session) (side : Side) : ℕ :=
  ((s.endpoint side.other).written.length - (s.endpoint side).fed.length)
    + ((s.endpoint side.other).submitted.length - (s.endpoint side).returned.length)

/-- What decreases. -/
def measure (s : Session) : ℕ ×ₗ ℕ :=
  toLex (s.client.phase.rank + s.server.phase.rank, s.missing .client + s.missing .server)

variable {P : Primitives} {cfg : SessionConfig} {answer : Bytes} {keys : Side → SessionKeys}
  {first : Side → ChaChaStream} {s : Session}

/-- A side that comes closer to reading frames. -/
theorem measure_put_of_rank {side : Side} {e : Endpoint}
    (h : e.phase.rank < (s.endpoint side).phase.rank) : (s.put side e).measure < s.measure := by
  refine Prod.Lex.toLex_lt_toLex.mpr (Or.inl ?_)
  cases side with
  | client => exact Nat.add_lt_add_right h _
  | server => exact Nat.add_lt_add_left h _

/-- A side that is as close as before, and misses less. -/
theorem measure_put_of_missing {side : Side} {e : Endpoint}
    (hphase : e.phase.rank = (s.endpoint side).phase.rank)
    (hwritten : e.written = (s.endpoint side).written)
    (hsubmitted : e.submitted = (s.endpoint side).submitted)
    (h : (s.put side e).missing side < s.missing side) : (s.put side e).measure < s.measure := by
  cases side with
  | client =>
    have hother : (s.put .client e).missing .server = s.missing .server := by
      show (e.written.length - _) + (e.submitted.length - _) = _
      rw [hwritten, hsubmitted]
      rfl
    refine Prod.Lex.toLex_lt_toLex.mpr (Or.inr ⟨congrArg (· + s.server.phase.rank) hphase, ?_⟩)
    show _ + (s.put .client e).missing .server < _
    rw [hother]
    exact Nat.add_lt_add_right h _
  | server =>
    have hother : (s.put .server e).missing .client = s.missing .client := by
      show (e.written.length - _) + (e.submitted.length - _) = _
      rw [hwritten, hsubmitted]
      rfl
    refine Prod.Lex.toLex_lt_toLex.mpr (Or.inr ⟨congrArg (s.client.phase.rank + ·) hphase, ?_⟩)
    show (s.put .server e).missing .client + _ < _
    rw [hother]
    exact Nat.add_lt_add_left h _

/-- One event that keeps what was submitted and brings a session closer to its end. -/
def Advance (P : Primitives) (cfg : SessionConfig) (s s' : Session) : Prop :=
  ∃ side event, Faithful cfg s side event ∧ event.IsDelivery ∧ step P side event s = (.ok (), s') ∧
    s'.client.submitted = s.client.submitted ∧ s'.server.submitted = s.server.submitted ∧
    s'.measure < s.measure

/-- An event that a side serves, keeping what was submitted. -/
theorem Advance.of_run {side : Side} {event : Event} {e : Endpoint}
    (hfaithful : Faithful cfg s side event) (hdelivery : event.IsDelivery)
    (hrun : event.run P (s.endpoint side) = (.ok (), e))
    (hsubmitted : e.submitted = (s.endpoint side).submitted)
    (hless : (s.put side e).measure < s.measure) : Advance P cfg s (s.put side e) := by
  refine ⟨side, event, hfaithful, hdelivery, step_of_run hrun, ?_, ?_, hless⟩
  · cases side with
    | client => exact hsubmitted
    | server => rfl
  · cases side with
    | client => rfl
    | server => exact hsubmitted

theorem near_refl (now : UInt64) : Near now now :=
  ⟨Nat.le_add_right _ _, Nat.le_add_right _ _⟩

namespace Joined

/-- Bytes on their way can arrive. -/
theorem advance_feed (h : Joined P cfg answer keys first s) {side : Side}
    (hmore : (s.endpoint side).fed ≠ (s.endpoint side.other).written) :
    ∃ s', Advance P cfg s s' := by
  obtain ⟨rs, tx, unread, hin⟩ := h.incoming side
  have hwire := hin.wire
  have hpos : 0 < unread.length := by
    rw [List.length_pos_iff]
    rintro rfl
    rw [List.append_nil] at hwire
    exact hmore hwire.symm
  let e : Endpoint := { s.endpoint side with
    buffer := (s.endpoint side).buffer ++ unread, fed := (s.endpoint side).fed ++ unread }
  have hrun : Event.run P (.feed unread) (s.endpoint side) = (.ok (), e) := rfl
  have hfaithful : Faithful cfg s side (.feed unread) := ⟨[], by rw [List.append_nil, hwire]⟩
  refine ⟨_, .of_run hfaithful trivial hrun rfl (measure_put_of_missing rfl rfl rfl ?_)⟩
  rw [missing, missing, endpoint_put_other, endpoint_put, hwire]
  show (_ - ((s.endpoint side).fed ++ unread).length) + _ < _ + (_ - e.returned.length)
  rw [List.length_append]
  omega

/-- With everything there, a side that is past the hello comes on, or has returned everything. -/
theorem advance_read (hA : P.aead.IsCorrect) (h : Joined P cfg answer keys first s) {side : Side}
    (hall : (s.endpoint side).fed = (s.endpoint side.other).written)
    (hcodec : (s.endpoint side).phase.codec ≠ none) :
    (∃ s', Advance P cfg s s') ∨ ((∃ codec, (s.endpoint side).phase = .data codec) ∧
      (s.endpoint side).returned.map Frame.item = (s.endpoint side.other).submitted) := by
  obtain ⟨rs, tx, unread, hin⟩ := h.incoming side
  obtain rfl := hin.unread_eq_nil hall
  have hfaithful : Faithful cfg s side (.read cfg.now) := fun _ _ ↦ near_refl cfg.now
  rcases hphase : (s.endpoint side).phase with - | codec | codec
  · rw [hphase] at hcodec
    exact absurd rfl hcodec
  · obtain ⟨rest, hrun⟩ := hin.hears.readCcs_of_all hphase
    have hread := (Endpoint.read_of_ccs P cfg.now hphase).trans hrun
    refine Or.inl ⟨_, .of_run hfaithful trivial hread rfl (measure_put_of_rank ?_)⟩
    rw [hphase]
    exact Nat.zero_lt_one
  · rcases hin.hears.readFrame_of_all hA hphase with ⟨hlt, f, rx, buffer, hrun⟩ | hdone
    · have hread := (Endpoint.read_of_data P cfg.now hphase).trans hrun
      refine Or.inl ⟨_, .of_run hfaithful trivial hread rfl
        (measure_put_of_missing (by rw [hphase]; rfl) rfl rfl ?_)⟩
      rw [← hin.speaks.submitted] at hlt
      rw [missing, missing, endpoint_put_other, endpoint_put]
      show (_ - (s.endpoint side).fed.length) + (_ - ((s.endpoint side).returned ++ [f]).length) < _
      rw [List.length_append, List.length_singleton]
      omega
    · exact Or.inr ⟨⟨codec, rfl⟩, by rw [hin.speaks.submitted, hdone]⟩

/-- With everything there, a side that awaits the hello reads it. -/
theorem advance_hello (hagreed : cfg.Agreed P answer keys first)
    (h : Joined P cfg answer keys first s)
    (hall : ∀ side : Side, (s.endpoint side).fed = (s.endpoint side.other).written) {side : Side}
    (hcodec : (s.endpoint side).phase.codec = none) : ∃ s', Advance P cfg s s' := by
  have hphase (side : Side) (hcodec : (s.endpoint side).phase.codec = none) :
      (s.endpoint side).phase = .hello := by
    obtain ⟨rs, tx, unread, hin⟩ := h.incoming side
    exact (hin.hears.of_none hcodec).1
  by_cases hserver : s.server.phase.codec = none
  · -- the server is the first to read
    obtain ⟨e, hrun, -, hsubmitted, hdone⟩ :=
      h.readHello_server hagreed (near_refl cfg.now) hserver
    obtain ⟨codec, hcodec'⟩ := hdone (hall .server)
    have hfaithful : Faithful cfg s .server (.read cfg.now) := fun _ _ ↦ near_refl cfg.now
    refine ⟨_, .of_run hfaithful trivial
      ((Endpoint.read_of_hello P cfg.now (hphase .server hserver)).trans hrun) hsubmitted
      (measure_put_of_rank ?_)⟩
    rw [hcodec', hphase .server hserver]
    exact Nat.one_lt_two
  · have hclient : s.client.phase.codec = none := by
      cases side with
      | client => exact hcodec
      | server => exact absurd hcodec hserver
    obtain ⟨e, hrun, -, hsubmitted, hdone⟩ := h.readHello_client hagreed cfg.now hclient
    obtain ⟨rs, tx, unread, hin⟩ := h.direction .server
    obtain ⟨codec, hcodec'⟩ := hdone (hin.speaks.written_ne_nil hserver) (hall .client)
    have hfaithful : Faithful cfg s .client (.read cfg.now) := fun _ _ ↦ near_refl cfg.now
    refine ⟨_, .of_run hfaithful trivial
      ((Endpoint.read_of_hello P cfg.now (hphase .client hclient)).trans hrun) hsubmitted
      (measure_put_of_rank ?_)⟩
    rw [hcodec', hphase .client hclient]
    exact Nat.one_lt_two

/-- **Progress.** A session is complete, or an event brings it closer to its end. -/
theorem complete_or_advance (hA : P.aead.IsCorrect) (hagreed : cfg.Agreed P answer keys first)
    (h : Joined P cfg answer keys first s) : s.Complete ∨ ∃ s', Advance P cfg s s' := by
  by_cases hall : ∀ side : Side, (s.endpoint side).fed = (s.endpoint side.other).written
  · by_cases hcodec : ∃ side, (s.endpoint side).phase.codec = none
    · obtain ⟨side, hcodec⟩ := hcodec
      exact Or.inr (h.advance_hello hagreed hall hcodec)
    · have hsome (side : Side) : (s.endpoint side).phase.codec ≠ none :=
        fun hnone ↦ hcodec ⟨side, hnone⟩
      rcases h.advance_read hA (hall .client) (hsome .client) with hadvance | hclient
      · exact Or.inr hadvance
      rcases h.advance_read hA (hall .server) (hsome .server) with hadvance | hserver
      · exact Or.inr hadvance
      · exact Or.inl fun side ↦ by cases side with
          | client => exact hclient
          | server => exact hserver
  · obtain ⟨side, hmore⟩ := not_forall.mp hall
    exact Or.inr (h.advance_feed hmore)

/-- **Deliveries and reads alone lead to the end**, by well-founded induction on what is left. -/
theorem exists_complete (hA : P.aead.IsCorrect) (hagreed : cfg.Agreed P answer keys first)
    (h : Joined P cfg answer keys first s) :
    ∃ s', Runs P (fun s side event ↦ Faithful cfg s side event ∧ event.IsDelivery) s s' ∧
      s'.client.submitted = s.client.submitted ∧ s'.server.submitted = s.server.submitted ∧
      s'.Complete ∧ Mirrored s'.client.keys s'.server.keys := by
  induction hmeasure : s.measure using WellFoundedLT.induction generalizing s with
  | _ m ih =>
    subst hmeasure
    rcases h.complete_or_advance hA hagreed with hcomplete | ⟨s₁, hadvance⟩
    · have hcodec (side : Side) : (s.endpoint side).phase.codec ≠ none := by
        obtain ⟨⟨codec, hphase⟩, -⟩ := hcomplete side
        rw [hphase]
        simp [Phase.codec]
      refine ⟨s, .refl, rfl, rfl, hcomplete, ?_⟩
      rw [show s.client.keys = _ from h.derived .client (hcodec .client),
        show s.server.keys = _ from h.derived .server (hcodec .server)]
      exact hagreed.mirrored
    · obtain ⟨side, event, hfaithful, hdelivery, hrun, hclient, hserver, hless⟩ := hadvance
      obtain ⟨s₁', hrun', hjoined'⟩ := hfaithful.step hA hagreed h
      cases hrun.symm.trans hrun'
      obtain ⟨s', hruns, hclient', hserver', hend⟩ := ih _ hless hjoined' rfl
      exact ⟨s', .head ⟨side, event, ⟨hfaithful, hdelivery⟩, by rw [hrun]⟩ hruns,
        hclient'.trans hclient, hserver'.trans hserver, hend⟩

end Joined

end Session

/-- **A session comes to its end.** Under the assumptions of safety, from every session that can be
reached, deliveries and reads alone lead to one in which both sides read frames under mirrored keys
and each has returned exactly what the other had submitted, in order; and a session in which no
delivery and no read changes anything is such a one. -/
theorem session_completes {P : Primitives} {cfg : SessionConfig} (hsound : cfg.Sound P)
    {s : Session} (hruns : Session.Runs P (Session.Faithful cfg) (cfg.start P) s) :
    (∃ s', Session.Runs P (fun s side event ↦ Session.Faithful cfg s side event ∧
        event.IsDelivery) s s' ∧
      s'.client.submitted = s.client.submitted ∧ s'.server.submitted = s.server.submitted ∧
      s'.Complete ∧ Mirrored s'.client.keys s'.server.keys) ∧
    ((∀ side event, Session.Faithful cfg s side event → event.IsDelivery →
        (Session.step P side event s).2 = s) → s.Complete) := by
  obtain ⟨answer, keys, first, hagreed⟩ := hsound.exists_agreed
  have hjoined := Session.Joined.of_runs hsound.aead hagreed hruns
  refine ⟨hjoined.exists_complete hsound.aead hagreed, fun hquiet ↦ ?_⟩
  rcases hjoined.complete_or_advance hsound.aead hagreed with hcomplete | ⟨s₁, hadvance⟩
  · exact hcomplete
  · obtain ⟨side, event, hfaithful, hdelivery, hrun, -, -, hless⟩ := hadvance
    have hsame := hquiet side event hfaithful hdelivery
    rw [hrun] at hsame
    exact absurd hless (by rw [show s₁ = s from hsame]; exact lt_irrefl _)

/-- Sending that succeeds adds the frames of the call. -/
theorem Endpoint.submitted_of_send {P : Primitives} {now : UInt64} {call : EncodeCall}
    {e : Endpoint} (hcodec : e.phase.codec ≠ none) (h : (send P now call e).1 = .ok ()) :
    (send P now call e).2.submitted = e.submitted ++ call.items := by
  obtain ⟨codec, hcodec⟩ := Option.ne_none_iff_exists'.mp hcodec
  rcases hrun : call.run P.aead P.hmac now codec.tx with ⟨out | error | _, tx⟩
  · rw [send_of_ok hcodec hrun]
  · rw [send, hcodec] at h
    dsimp only at h
    rw [hrun] at h
    cases h
  · rw [send, hcodec] at h
    dsimp only at h
    rw [hrun] at h
    cases h

/-- The sample session comes to its end; then the server sends a frame, and the session comes to its
end again, with the frame returned. -/
theorem session_completes_with_frame :
    ∃ s, Session.Runs SampleSession.primitives (Session.Faithful SampleSession.config)
        (SampleSession.config.start SampleSession.primitives) s ∧
      ∃ before, s.client.returned.map Frame.item = before ++ [⟨7, .data, [1, 2, 3]⟩] := by
  obtain ⟨s, hruns, -, -, hcomplete, -⟩ :=
    (session_completes SampleSession.sound SampleSession.runs_answered).1
  have hruns' := SampleSession.runs_answered.trans (hruns.mono fun _ _ _ ↦ And.left)
  have hfaithful : Session.Faithful SampleSession.config s .server
      (.send 0 (.frame 7 .data [1, 2, 3])) := by
    intro item hitem
    obtain rfl := List.mem_singleton.mp hitem
    decide
  have hsent := hruns'.tail ⟨.server, .send 0 (.frame 7 .data [1, 2, 3]), hfaithful, rfl⟩
  obtain ⟨s', hruns'', -, hserver', hcomplete', -⟩ :=
    (session_completes SampleSession.sound hsent).1
  refine ⟨s', hsent.trans (hruns''.mono fun _ _ _ ↦ And.left), s.server.submitted, ?_⟩
  rw [show s'.client.returned.map Frame.item = s'.server.submitted from (hcomplete' .client).2,
    hserver']
  have hcodec : s.server.phase.codec ≠ none := by
    obtain ⟨⟨codec, hphase⟩, -⟩ := hcomplete .server
    rw [show s.server.phase = _ from hphase]
    simp [Phase.codec]
  obtain ⟨answer, keys, first, hagreed⟩ := SampleSession.sound.exists_agreed
  have hjoined := Session.Joined.of_runs SampleSession.sound.aead hagreed hruns'
  obtain ⟨s₁, hstep, -⟩ := hfaithful.step SampleSession.sound.aead hagreed hjoined
  exact Endpoint.submitted_of_send hcodec (congrArg Prod.fst hstep)
