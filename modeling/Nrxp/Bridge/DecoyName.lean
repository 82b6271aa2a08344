import Nrxp.Bridge.Fingerprints
import Nrxp.Tls.Decoy

/-!
# The name of a decoy travels

A name that a catalog has validated is short enough for every profile that fits. What an observer
reads from the hello is this name, however the operator wrote it, and a catalog that lists it takes
it as it is read.
-/

open TlsBridge

namespace DecoyCatalog

open Decoy

/-- A validated name is validated again, by every catalog that lists it. -/
theorem validate_asStr {c c' : DecoyCatalog} {sni : String} {s : DecoySni}
    (h : c.validate sni = .ok s) (hmem : s.asStr ∈ c'.domains) : c'.validate s.asStr = .ok s := by
  obtain ⟨hnormal, -⟩ := validate_eq_ok_iff.mp h
  have hself : normalise s.asStr = s.asStr := by
    rw [← hnormal]
    exact normalise_eq_self (hnormal ▸ s.isHostName)
  exact validate_eq_ok_iff.mpr ⟨hself, hmem⟩

/-- **A validated name travels**: whatever is drawn, the hello for it is read with this name in it,
and every catalog that lists the name validates what was read. -/
theorem decoy_name_travels {c : DecoyCatalog} {sni : String} {s : DecoySni}
    (h : c.validate sni = .ok s) {profile : BrowserProfile} (hfits : profile.Fits)
    (hsni : TlsExtensions.sni ∈ profile.extensionOrder) (hmac : HmacSha256) (now : UInt64)
    (keys : SessionKeys) (rng : OsRng) :
    ∃ hello stack,
      observe (ClientHello.makeClientHello hmac now profile s.asStr keys rng).1
        = some (hello, stack) ∧
      stack.serverName = some s.asStr ∧
      ∀ c' : DecoyCatalog, s.asStr ∈ c'.domains →
        ∀ name, stack.serverName = some name → c'.validate name = .ok s := by
  have hlen := s.isHostName.length_le
  obtain ⟨hello, es, hread, -, -, -, -, -, hfinds⟩ :=
    ClientHello.exists_observed hfits hlen hmac now keys rng
  have hfound := hfinds TlsExtensions.sni _ rfl
  rw [if_pos hsni] at hfound
  have hname := serverName_hostName hfound hlen
  refine ⟨hello, .ofEntries es, hread, hname, fun c' hmem name hread' ↦ ?_⟩
  obtain rfl := Option.some.inj (hname.symm.trans hread')
  exact validate_asStr h hmem

/-- A name in the spelling of an operator. -/
theorem decoy_name_travels_chrome140 :
    ∃ s hello stack,
      (fromList "Example.com,example.org").validate " EXAMPLE.com. " = .ok s ∧
      observe (ClientHello.makeClientHello .sum 0 .chrome140 s.asStr
        (SessionKeys.new .sum true (.repeating 1)).1 (.repeating 3)).1 = some (hello, stack) ∧
      stack.serverName = some "example.com" := by
  let s : DecoySni := ⟨"example.com", by decide, by decide, by decide +kernel, by decide +kernel⟩
  have hlisted : "example.com" ∈ (fromList "Example.com,example.org").domains :=
    mem_domains_fromList.mpr ⟨by decide, "Example.com", by decide +kernel, by decide +kernel⟩
  have hvalid : (fromList "Example.com,example.org").validate " EXAMPLE.com. " = .ok s :=
    validate_eq_ok_iff.mpr ⟨by decide +kernel, hlisted⟩
  obtain ⟨hello, stack, hread, hname, -⟩ := decoy_name_travels hvalid
    (BrowserProfile.shipped_fits .chrome140 List.mem_cons_self) (by decide) .sum 0
    (SessionKeys.new .sum true (.repeating 1)).1 (.repeating 3)
  exact ⟨s, hello, stack, hvalid, hread, hname⟩

end DecoyCatalog
