import Nrxp.Datagram.Delivery
import Nrxp.Session.Completion
import Nrxp.Session.DatagramLeg

/-!
# The datagram leg of a session delivers

Two sides that came to mirrored keys over a faithful network have one root for datagrams, and play
opposite parts in deriving from it. Thus, in either direction, what one of them seals and what the
other opens is a `Channel`, and what is known of channels holds of the leg of every such session.
-/

namespace Channel

/-- What the first side seals, the other opens. -/
def between (hkdf : HkdfSha256) (own other : DatagramKeyMaterial) : Channel where
  tx := .new own
  rx := .new hkdf other
  sent := []

end Channel

/-- The legs of a session are channels over one root. -/
theorem Session.Faithful.exists_channel {P : Primitives} {cfg : SessionConfig}
    (hsound : cfg.Sound P) {s : Session}
    (hruns : Session.Runs P (Session.Faithful cfg) (cfg.start P) s)
    (hcodec : ∀ side : Side, (s.endpoint side).phase.codec ≠ none) :
    ∃ root, ∀ side : Side, DatagramKeyMaterial.derive P.hkdf (s.endpoint side).keys
      = .ok (.deriveFromRoot P.hkdf root !side.isServer) := by
  obtain ⟨answer, keys, first, hagreed⟩ := hsound.exists_agreed
  have hjoined := Session.Joined.of_runs hsound.aead hagreed hruns
  have hhostile : Session.Runs P (Session.Hostile fun _ ↦ True) (cfg.start P) s :=
    hruns.mono fun s side event h ↦ by
      cases event with
      | feed bytes => trivial
      | read now => exact fun _ ↦ trivial
      | send now call => exact h
  have halone := Session.Hostile.alone hsound.aead hhostile
  obtain ⟨root, hclient, hserver⟩ := hagreed.mirrored.datagramRoot
  obtain ⟨a, b, ha, hb, -⟩ := hagreed.mirrored.aead
  refine ⟨root, fun side ↦ ?_⟩
  have hkeys : (s.endpoint side).keys = keys side := hjoined.derived side (hcodec side)
  cases side with
  | client => exact (halone .client).derive (hkeys ▸ ha) (hkeys ▸ hclient)
  | server => exact (halone .server).derive (hkeys ▸ hb) (hkeys ▸ hserver)

/-- **The datagram leg of a session delivers.** In every session that a faithful network leads to
and in which both sides have codecs, both derive the material of one leg, each with the token and
the header keys of the other. Let the frames of either side be sealed and delivered over a network
that loses, delays, reorders and repeats. Every frame is sealed; and if the datagrams that arrive
arrive in order, each once, and none of them is two epochs or more above the one before it, then all
of them open, to their frames. Beyond that it matters that no datagram opens where it is tried under
the keys of another epoch, which holds by itself in fewer than 255 epochs: then every delivery is
decided as an epoch filter decides it, nothing opens to another frame than was sealed, and in order
no other deliveries all open. -/
theorem session_leg_delivers {P : Primitives} {cfg : SessionConfig} (hsound : cfg.Sound P)
    {s : Session} (hruns : Session.Runs P (Session.Faithful cfg) (cfg.start P) s)
    (hcodec : ∀ side : Side, (s.endpoint side).phase.codec ≠ none) :
    ∃ m : Side → DatagramKeyMaterial,
      (∀ side, DatagramKeyMaterial.derive P.hkdf (s.endpoint side).keys = .ok (m side) ∧
        (m side).legToken = (m side.other).legToken ∧
        (m side).hpKeyTx = (m side.other).hpKeyRx) ∧
      ∀ (sender : Side) (events : List ChannelEvent), (∀ event ∈ events, event.WellFormed) →
        let channel := Channel.between P.hkdf (m sender) (m sender.other)
        let run := channel.run P.aead P.hkdf events
        let Apart := channel.RunApart P.aead P.hkdf (m sender).tx.chain events
        run.2.sent.map (·.item) = events.filterMap ChannelEvent.item? ∧
          (InOrder run.1 → NoneSkipped run.1 → AllDelivered run.1) ∧
          (epochOf (events.countP ChannelEvent.isSend) < 255 → Apart) ∧
          (Apart →
            (∃ F : EpochFilter, F.Runs 1024 (run.1.map Delivery.offer)) ∧
            (∀ d ∈ run.1, ∀ f, d.result = .ok f → f.item = d.datagram.item) ∧
            (InOrder run.1 → (∀ d ∈ run.1, ∃ f, d.result = .ok f) → NoneSkipped run.1)) := by
  obtain ⟨root, hderive⟩ := Session.Faithful.exists_channel hsound hruns hcodec
  refine ⟨fun side ↦ .deriveFromRoot P.hkdf root !side.isServer,
    fun side ↦ ⟨hderive side, ?_⟩, fun sender events hwell ↦ ?_⟩
  · have hmirrored := DatagramKeyMaterial.deriveFromRoot_mirrored P.hkdf root !side.isServer
    cases side <;> exact hmirrored
  have hchannel : Channel.between P.hkdf (.deriveFromRoot P.hkdf root !sender.isServer)
      (.deriveFromRoot P.hkdf root !sender.other.isServer)
        = .new P.hkdf root !sender.isServer := by
    cases sender <;> rfl
  have hchain : (DatagramKeyMaterial.deriveFromRoot P.hkdf root !sender.isServer).tx.chain
      = txChain0 P.hkdf root !sender.isServer := by
    rw [DatagramKeyMaterial.deriveFromRoot_tx]
    rfl
  simp only [hchannel, hchain]
  refine ⟨Channel.sent_items hsound.aead P.hkdf root _ hwell,
    Channel.allDelivered_of_noneSkipped hsound.aead hwell, .of_few hsound.aead hwell,
    fun hapart ↦ ?_⟩
  obtain ⟨F, hreceived⟩ := Channel.Received.of_run hsound.aead hwell hapart
  exact ⟨⟨F, hreceived.runs⟩, hreceived.item,
    Channel.noneSkipped_of_opened hsound.aead hwell hapart⟩

/-! ### A leg to compute with -/

namespace SampleSession

def legItems : List Item :=
  [⟨9, .udpData, [1, 2, 3]⟩, ⟨9, .udpData, [4]⟩, ⟨5, .udpData, []⟩]

/-- Three frames are sealed. The last arrives first, then the first arrives, twice; the one between
is lost. -/
def legEvents : List ChannelEvent :=
  legItems.map (.send · [7]) ++ [.deliver 2 32] ++ [.deliver 0 16] ++ [.deliver 0 32]

theorem wellFormed_legEvents : ∀ event ∈ legEvents, event.WellFormed := by
  simp [legEvents, legItems, ChannelEvent.WellFormed]

/-- A datagram of the first epoch is offered with its number. -/
theorem offer_eq {A : ChaCha20Poly1305} {hkdf : HkdfSha256} {chain0 : ByteArr 32} {n : ℕ}
    {d : Delivery} (hat : SentDatagram.At A hkdf chain0 n d.datagram) (hn : n < 2 ^ 14) :
    d.offer = ((0, n), d.opened) := by
  have hcounter : counterOf n = n := Nat.mod_eq_of_lt (by rwa [toNat_rekeyAfterDatagrams])
  have hepoch : epochOf n = 0 := Nat.div_eq_of_lt (by rwa [toNat_rekeyAfterDatagrams])
  rw [Delivery.offer, hat.epoch, hat.counter, toNat_counterOf, hcounter, hepoch]

/-- The filter takes the third frame and then the first, and the first not again. -/
theorem decided {F : EpochFilter} {b b' b'' : Bool}
    (h : F.Runs 1024 [((0, 2), b), ((0, 0), b'), ((0, 0), b'')]) :
    b = true ∧ b' = true ∧ b'' = false := by
  have hthird := EpochFilter.Runs.last_iff (l := [((0, 2), b), ((0, 0), b')]) h (by simp)
  obtain ⟨F₂, h₂, -⟩ := EpochFilter.Runs.last (l := [((0, 2), b), ((0, 0), b')]) h
  have hsecond := EpochFilter.Runs.last_iff (l := [((0, 2), b)]) h₂ (by simp)
  obtain ⟨F₁, h₁, -⟩ := EpochFilter.Runs.last (l := [((0, 2), b)]) h₂
  have hfirst := EpochFilter.Runs.last_iff (l := []) h₁ (by simp)
  have hb' : b' = true := hsecond.mpr (by simp)
  refine ⟨hfirst.mpr (by simp), hb', Bool.eq_false_iff.mpr fun hb'' ↦ ?_⟩
  exact (hthird.mp hb'' 0 (by simp [hb'])).1 rfl

/-- Over any root there are these three deliveries. -/
theorem run_legEvents (hkdf : HkdfSha256) (root : ByteArr 32) (isInitiator : Bool) :
    ∃ d d' d'', ((Channel.new hkdf root isInitiator).run .clear hkdf legEvents).1 = [d, d', d''] ∧
      d.offer = ((0, 2), d.opened) ∧ d'.offer = ((0, 0), d'.opened) ∧
      d''.offer = ((0, 0), d''.opened) ∧
      [d, d'].map (·.datagram.item) = [⟨5, .udpData, []⟩, ⟨9, .udpData, [1, 2, 3]⟩] := by
  have hwell := wellFormed_legEvents
  rw [legEvents, List.forall_mem_append] at hwell
  have hwell' := (List.forall_mem_append.mp hwell.1)
  have hwell'' := (List.forall_mem_append.mp hwell'.1)
  have hA := ChaCha20Poly1305.clear_isCorrect
  obtain ⟨d, hd, hat, hitem⟩ :=
    Channel.exists_delivery hA hkdf root isInitiator hwell''.1 2 32 (by decide)
  obtain ⟨d', hd', hat', hitem'⟩ :=
    Channel.exists_delivery hA hkdf root isInitiator hwell'.1 0 16 (by decide)
  obtain ⟨d'', hd'', hat'', -⟩ :=
    Channel.exists_delivery hA hkdf root isInitiator hwell.1 0 32 (by decide)
  obtain ⟨hnone, -⟩ := Channel.run_sends .clear hkdf (.new hkdf root isInitiator)
    (show ∀ event ∈ legItems.map (ChannelEvent.send · [7]), event.isSend = true by decide)
  rw [hnone, List.nil_append] at hd
  rw [hd] at hd'
  rw [hd'] at hd''
  refine ⟨d, d', d'', hd'', offer_eq hat (by decide), offer_eq hat' (by decide),
    offer_eq hat'' (by decide), ?_⟩
  rw [List.map_cons, List.map_singleton, ← Option.some.inj hitem, ← Option.some.inj hitem']

/-- The sample session goes on until both sides have codecs. -/
theorem exists_codecs : ∃ s, Session.Runs primitives (Session.Faithful config)
    (config.start primitives) s ∧ ∀ side : Side, (s.endpoint side).phase.codec ≠ none := by
  obtain ⟨answer, keys, first, hagreed⟩ := sound.exists_agreed
  have hjoined := Session.Joined.of_runs sound.aead hagreed runs_answered
  obtain ⟨s, hruns, -, -, hcomplete, -⟩ := hjoined.exists_complete sound.aead hagreed
  refine ⟨s, runs_answered.trans (hruns.mono fun _ _ _ ↦ And.left), fun side ↦ ?_⟩
  obtain ⟨⟨codec, hphase⟩, -⟩ := hcomplete side
  rw [hphase]
  exact Option.some_ne_none codec

end SampleSession

/-- In the sample session the datagrams of the client that arrive open, one overtaken by the other,
each once. -/
theorem session_leg_delivers_sample :
    ∃ s, Session.Runs SampleSession.primitives (Session.Faithful SampleSession.config)
        (SampleSession.config.start SampleSession.primitives) s ∧
      ∃ m : Side → DatagramKeyMaterial,
        (∀ side, DatagramKeyMaterial.derive .repeating (s.endpoint side).keys = .ok (m side)) ∧
        ∃ d d' d'' f f', ((Channel.between .repeating (m .client) (m .server)).run .clear .repeating
            SampleSession.legEvents).1 = [d, d', d''] ∧
          d.result = .ok f ∧ f.item = ⟨5, .udpData, []⟩ ∧
          d'.result = .ok f' ∧ f'.item = ⟨9, .udpData, [1, 2, 3]⟩ ∧
          d''.opened = false := by
  obtain ⟨s, hruns, hcodec⟩ := SampleSession.exists_codecs
  obtain ⟨m, hm, hdelivers⟩ := session_leg_delivers SampleSession.sound hruns hcodec
  obtain ⟨root, hderive⟩ := Session.Faithful.exists_channel SampleSession.sound hruns hcodec
  have hmaterial (side : Side) : m side = .deriveFromRoot .repeating root !side.isServer :=
    Outcome.ok.inj ((hm side).1.symm.trans (hderive side))
  have hchannel : Channel.between .repeating (m .client) (m .server)
      = .new .repeating root true := by
    rw [hmaterial .client, hmaterial .server]
    rfl
  obtain ⟨d, d', d'', hrun, hoffer, hoffer', hoffer'', hitem⟩ :=
    SampleSession.run_legEvents .repeating root true
  rw [← hchannel] at hrun
  obtain ⟨-, -, hfew, hrest⟩ :=
    hdelivers .client SampleSession.legEvents SampleSession.wellFormed_legEvents
  obtain ⟨⟨F, hF⟩, hright, -⟩ := hrest (hfew (by decide))
  have hdeliveries : ((Channel.between SampleSession.primitives.hkdf (m .client)
      (m Side.client.other)).run SampleSession.primitives.aead SampleSession.primitives.hkdf
        SampleSession.legEvents).1 = [d, d', d''] := hrun
  rw [hdeliveries] at hF hright
  simp only [List.map_cons, List.map_nil, hoffer, hoffer', hoffer''] at hF
  obtain ⟨hopened, hopened', hrefused⟩ := SampleSession.decided hF
  obtain ⟨f, hf⟩ := d.opened_iff.mp hopened
  obtain ⟨f', hf'⟩ := d'.opened_iff.mp hopened'
  obtain ⟨hlast, hitem'⟩ := List.cons.inj hitem
  exact ⟨s, hruns, m, fun side ↦ (hm side).1, d, d', d'', f, f', hrun, hf,
    (hright d (by simp) f hf).trans hlast, hf',
    (hright d' (by simp) f' hf').trans (List.cons.inj hitem').1, hrefused⟩
