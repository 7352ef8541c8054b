import Cheti.Labels
import Cheti.Providers.Rfc2136
/-!
# Nameserver addresses survive printing and re-parsing

`parse_nameserver` tries four grammars in turn: a socket address, an address (an IPv6 address also in brackets),
a host name with a port, a host name. A `Host` is what they have in common. Its texts, with a port and alone, are
accepted (`parse_withPort`, `parse_text`), and what is accepted is a `Host` (`parseNameserver_spec`). The grammars
overlap in one place only, a host name that is the text of an IPv4 address, and there they agree.
-/

namespace Cheti.Rfc2136

open Net

/-! ## Texts without whitespace -/

/-- The characters of host names and addresses, with the brackets. -/
def isHostChar (c : Char) : Bool := isNameChar c || c == '.' || c == ':' || c == '[' || c == ']'

theorem isHostChar_of_isAddrChar {c : Char} (h : isAddrChar c = true) : isHostChar c = true := by
  have hle : ∀ {a b : Char}, a ≤ b → a.toNat ≤ b.toNat := fun hab => UInt32.le_iff_toNat_le.1 hab
  simp only [isAddrChar, Bool.or_eq_true, beq_iff_eq] at h
  rcases h with (h | rfl) | rfl
  · obtain ⟨d, hd⟩ := Option.isSome_iff_exists.1 h
    have hname : isNameChar c = true := by
      rw [isNameChar_iff]
      obtain ⟨hvalue, -⟩ := Option.filter_eq_some_iff.1 hd
      split at hvalue
      · rename_i hc
        have h1 : 48 ≤ c.toNat := hle hc.1
        have h2 : c.toNat ≤ 57 := hle hc.2
        omega
      · split at hvalue
        · rename_i hc
          have h1 : 97 ≤ c.toNat := hle hc.1
          have h2 : c.toNat ≤ 102 := hle hc.2
          omega
        · split at hvalue
          · rename_i hc
            have h1 : 65 ≤ c.toNat := hle hc.1
            have h2 : c.toNat ≤ 70 := hle hc.2
            omega
          · cases hvalue
    rw [isHostChar, hname]
    rfl
  · rfl
  · rfl

theorem not_whitespace_of_isHostChar {c : Char} (h : isHostChar c = true) : isWhitespace c = false := by
  simp only [isHostChar, Bool.or_eq_true, beq_iff_eq] at h
  rcases h with (((h | rfl) | rfl) | rfl) | rfl
  · exact not_isWhitespace h
  · decide
  · decide
  · decide
  · decide

theorem trim_hostChars {s : Str} (h : ∀ c ∈ s, isHostChar c = true) : trim s = s :=
  trim_of_forall fun c hc => not_whitespace_of_isHostChar (h c hc)

/-! ## Accepted host names -/

/-- The characters of an accepted name. -/
theorem nameChar_or_dot {h : Str} (hv : validateFqdn h = .ok ()) {c : Char} (hc : c ∈ h) :
    isNameChar c = true ∨ c = '.' := by
  have hsplit : trimDots h ++ h.rtakeWhile (· == '.') = h := List.rdropWhile_append_rtakeWhile ..
  rw [← hsplit] at hc
  rcases List.mem_append.1 hc with hc | hc
  · rw [← joinDots_splitOn (trimDots h)] at hc
    rcases mem_joinDots hc with rfl | ⟨l, hl, hc⟩
    · exact Or.inr rfl
    · exact Or.inl (((validateFqdn_iff.1 hv).label l hl).chars c hc)
  · have heq : (c == '.') = true := List.mem_rtakeWhile_imp (p := (· == '.')) hc
    exact Or.inr (beq_iff_eq.1 heq)

theorem not_mem_of_accepted {h : Str} (hv : validateFqdn h = .ok ()) {c : Char} (hc : isNameChar c = false) (hdot : c ≠ '.') :
    c ∉ h := by
  intro hmem
  rcases nameChar_or_dot hv hmem with hname | rfl
  · rw [hc] at hname
    cases hname
  · exact hdot rfl

theorem isHostChar_of_accepted {h : Str} (hv : validateFqdn h = .ok ()) {c : Char} (hc : c ∈ h) : isHostChar c = true := by
  rcases nameChar_or_dot hv hc with hname | rfl
  · rw [isHostChar, hname]
    rfl
  · rfl

theorem validateFqdn_trimDots {h : Str} (hv : validateFqdn h = .ok ()) : validateFqdn (trimDots h) = .ok () := by
  rw [validateFqdn_iff, trimDots_trimDots]
  exact validateFqdn_iff.1 hv

theorem getLast?_of_trimDots {s : Str} (h : trimDots s = s) : s.getLast? ≠ some '.' := by
  intro hlast
  obtain ⟨front, rfl⟩ := List.getLast?_eq_some_iff.1 hlast
  have hne : front ++ ['.'] ≠ [] := by simp
  refine List.rdropWhile_eq_self_iff.1 h hne ?_
  simp

/-! ## Addresses and ports as texts -/

theorem not_mem_dec {n : Nat} {c : Char} (hc : digitOf 10 c = none) : c ∉ dec n := by
  intro hmem
  have h := (toDigits_spec (show 1 < 10 by decide) (by decide) n).1 c hmem
  rw [hc] at h
  cases h

theorem not_mem_ipv4 {v4 : Ipv4Addr} {c : Char} (hc : digitOf 10 c = none) (hdot : c ≠ '.') : c ∉ v4.display := by
  simp [Ipv4Addr.display, not_mem_dec hc, hdot]

/-- The text of an IPv4 address does not end in a dot. -/
theorem trimDots_ipv4 (v4 : Ipv4Addr) : trimDots v4.display = v4.display := by
  have hne : dec v4.d.toNat ≠ [] := List.length_pos_iff.1 Nat.length_toDigits_pos
  rw [trimDots, List.rdropWhile_eq_self_iff]
  intro _ hdot
  have hlast : v4.display.getLast ‹_› = (dec v4.d.toNat).getLast hne := by
    simp [Ipv4Addr.display, List.getLast_append_of_ne_nil, hne]
  have hmem : '.' ∈ dec v4.d.toNat := by
    rw [← beq_iff_eq.1 hdot, hlast]
    exact List.getLast_mem hne
  exact not_mem_dec (by decide) hmem

theorem rsplitOnce_none {c : Char} {s : Str} (h : c ∉ s) : rsplitOnce c s = none := by
  induction s with
  | nil => rfl
  | cons d s ih =>
    rw [List.mem_cons, not_or] at h
    rw [rsplitOnce, ih h.2]
    exact if_neg (Ne.symm h.1)

theorem rsplitOnce_append {c : Char} {before after : Str} (h : c ∉ after) :
    rsplitOnce c (before ++ c :: after) = some (before, after) := by
  induction before with
  | nil =>
    rw [List.nil_append, rsplitOnce, rsplitOnce_none h]
    exact if_pos rfl
  | cons d before ih => rw [List.cons_append, rsplitOnce, ih]

theorem unbracketed_of_not_mem {s : Str} (h : '[' ∉ s) : unbracketed s = s := by
  unfold unbracketed
  split
  · exact absurd List.mem_cons_self h
  · rfl

/-! ## Hosts -/

/-- An address, or an accepted host name. -/
inductive Host where
  | ip (addr : IpAddr)
  | name (name : Str) (accepted : validateFqdn name = .ok ())

namespace Host

/-- The text of the host alone. -/
def text : Host → Str
  | .ip addr => addr.display
  | .name h _ => h

/-- The text with a port, an IPv6 address in brackets. -/
def withPort (p : UInt16) : Host → Str
  | .ip (.v4 v4) => v4.display ++ ':' :: dec p.toNat
  | .ip (.v6 v6) => '[' :: (v6.display ++ ']' :: ':' :: dec p.toNat)
  | .name h _ => h ++ ':' :: dec p.toNat

/-- The text without trailing dots. -/
def canonical : Host → Str
  | .ip addr => addr.display
  | .name h _ => trimDots h

end Host

variable (special : Char → Bool)

theorem parseHost_of_port {host raw : Str} {p : UInt16} (h : hostAndPort special raw = .ok (host, p)) (hp : p ≠ 0)
    (hv : validateFqdn host = .ok ()) : parseHost special raw = .ok ⟨trimDots host, p⟩ := by
  have hcolon : ':' ∉ host := not_mem_of_accepted hv (by decide) (by decide)
  rw [parseHost, h]
  exact if_neg (by simp [hp, hcolon, hv])

theorem parseHost_eq_ok {raw : Str} {ns : Nameserver} (h : parseHost special raw = .ok ns) :
    ∃ host, validateFqdn host = .ok () ∧ ns.host = trimDots host ∧ ns.port ≠ 0 := by
  unfold parseHost at h
  split at h
  · cases h
  · rename_i host port _
    split at h
    · cases h
    · rename_i hc
      obtain rfl := Except.ok.inj h
      push Not at hc
      exact ⟨host, hc.2.2, rfl, hc.1⟩

/-! ## Both ways -/

/-- A host name that is read as a socket address is the text of its address. -/
theorem parseSocketAddr_name {h : Str} (hv : validateFqdn h = .ok ()) {p : UInt16} {addr : SocketAddr}
    (hparse : parseSocketAddr (h ++ ':' :: dec p.toNat) = some addr) : addr.ip.display = trimDots h ∧ addr.port = p := by
  have hcolon : ':' ∉ h := not_mem_of_accepted hv (by decide) (by decide)
  have hport : ':' ∉ dec p.toNat := not_mem_dec (by decide)
  rcases parseSocketAddr_eq_some hparse with ⟨v4, t, htext, hip, hnumber⟩ | ⟨t, htext⟩
  · obtain ⟨rfl, -, rfl⟩ := (List.append_cons_inj_of_notMem hcolon hport).1 htext
    rw [readNumber_port] at hnumber
    refine ⟨?_, UInt16.toNat_inj.1 (Prod.mk.inj (Option.some.inj hnumber)).1.symm⟩
    rw [hip, trimDots_ipv4]
    rfl
  · have hmem : '[' ∈ h ++ ':' :: dec p.toNat := by
      rw [htext]
      exact List.mem_cons_self
    have hbracket : '[' ∉ h := not_mem_of_accepted hv (by decide) (by decide)
    have hdigits : '[' ∉ dec p.toNat := not_mem_dec (by decide)
    simp [hbracket, hdigits] at hmem

theorem parseNameserver_of_trim {raw : Str} (h : trim raw = raw) (hsocket : parseSocketAddr raw = none)
    (hip : parseIpAddr (unbracketed raw) = none) : parseNameserver special raw = parseHost special raw := by
  simp only [parseNameserver, h, hsocket, hip]

theorem parseNameserver_of_socket {raw : Str} {addr : SocketAddr} (h : trim raw = raw)
    (hsocket : parseSocketAddr raw = some addr) (hp : addr.port ≠ 0) :
    parseNameserver special raw = .ok ⟨addr.ip.display, addr.port⟩ := by
  simp only [parseNameserver, h, hsocket, if_neg hp]

theorem parseNameserver_of_ip {raw : Str} {ip : IpAddr} (h : trim raw = raw) (hsocket : parseSocketAddr raw = none)
    (hip : parseIpAddr (unbracketed raw) = some ip) : parseNameserver special raw = .ok ⟨ip.display, defaultPort⟩ := by
  simp only [parseNameserver, h, hsocket, hip]

theorem trim_withPort (h : Host) (p : UInt16) : trim (h.withPort p) = h.withPort p := by
  refine trim_hostChars fun c hc => ?_
  have hdec : ∀ {c}, c ∈ dec p.toNat → isHostChar c = true := fun hc => isHostChar_of_isAddrChar (dec_isAddrChar hc)
  cases h with
  | ip addr =>
    have haddr : ∀ {c}, c ∈ addr.display → isHostChar c = true := fun hc =>
      isHostChar_of_isAddrChar (IpAddr.isAddrChar_display hc)
    cases addr with
    | v4 v4 =>
      simp only [Host.withPort, List.mem_append, List.mem_cons] at hc
      rcases hc with hc | rfl | hc
      · exact haddr hc
      · rfl
      · exact hdec hc
    | v6 v6 =>
      simp only [Host.withPort, List.mem_append, List.mem_cons] at hc
      rcases hc with rfl | hc | rfl | rfl | hc
      · rfl
      · exact haddr hc
      · rfl
      · rfl
      · exact hdec hc
  | name h hv =>
    simp only [Host.withPort, List.mem_append, List.mem_cons] at hc
    rcases hc with hc | rfl | hc
    · exact isHostChar_of_accepted hv hc
    · rfl
    · exact hdec hc

theorem trim_text (h : Host) : trim h.text = h.text := by
  refine trim_hostChars fun c hc => ?_
  cases h with
  | ip addr => exact isHostChar_of_isAddrChar (IpAddr.isAddrChar_display hc)
  | name h hv => exact isHostChar_of_accepted hv hc

/-- **A host with a port** is accepted with exactly that port. -/
theorem parse_withPort (h : Host) {p : UInt16} (hp : p ≠ 0) :
    parseNameserver special (h.withPort p) = .ok ⟨h.canonical, p⟩ := by
  have htrim := trim_withPort h p
  cases h with
  | ip addr =>
    cases addr with
    | v4 v4 => exact parseNameserver_of_socket special htrim (parseSocketAddr_v4 v4 p) hp
    | v6 v6 => exact parseNameserver_of_socket special htrim (parseSocketAddr_v6 v6 p) hp
  | name h hv =>
    cases hsocket : parseSocketAddr (h ++ ':' :: dec p.toNat) with
    | some addr =>
      obtain ⟨haddr, rfl⟩ := parseSocketAddr_name hv hsocket
      rw [Host.canonical, ← haddr]
      exact parseNameserver_of_socket special htrim hsocket hp
    | none =>
      have hcolon : ':' ∉ h := not_mem_of_accepted hv (by decide) (by decide)
      have hport : ':' ∉ dec p.toNat := not_mem_dec (by decide)
      have hbracket : '[' ∉ h ++ ':' :: dec p.toNat := by
        have h1 : '[' ∉ h := not_mem_of_accepted hv (by decide) (by decide)
        have h2 : '[' ∉ dec p.toNat := not_mem_dec (by decide)
        simp [h1, h2]
      -- there is one colon: too many for an IPv4 address, too few for an IPv6 address
      have hip : parseIpAddr (unbracketed (h ++ ':' :: dec p.toNat)) = none := by
        rw [unbracketed_of_not_mem hbracket, Option.eq_none_iff_forall_ne_some]
        intro ip hip
        rcases parseIpAddr_eq_some hip with ⟨v4, htext, -⟩ | hcount
        · have hmem : ':' ∈ v4.display := by
            rw [← htext]
            simp
          exact not_mem_ipv4 (by decide) (by decide) hmem
        · rw [List.count_append, List.count_cons_self, List.count_eq_zero.2 hcolon, List.count_eq_zero.2 hport] at hcount
          omega
      have hsplit : hostAndPort special (h ++ ':' :: dec p.toNat) = .ok (h, p) := by
        rw [hostAndPort, rsplitOnce_append hport]
        simp only [parseU16_dec]
      exact (parseNameserver_of_trim special htrim hsocket hip).trans (parseHost_of_port special hsplit hp hv)

/-- What has no colon and no bracket is no socket address. -/
theorem parseSocketAddr_none {s : Str} (hcolon : ':' ∉ s) (hbracket : '[' ∉ s) : parseSocketAddr s = none := by
  rw [Option.eq_none_iff_forall_ne_some]
  intro addr haddr
  rcases parseSocketAddr_eq_some haddr with ⟨v4, t, rfl, -⟩ | ⟨t, rfl⟩
  · exact hcolon (by simp)
  · exact hbracket (by simp)

theorem parseSocketAddr_ip (ip : IpAddr) : '[' ∉ ip.display ∧ parseSocketAddr ip.display = none := by
  have hbracket : '[' ∉ ip.display := fun h => absurd (IpAddr.isAddrChar_display h) (by decide)
  refine ⟨hbracket, ?_⟩
  cases ip with
  | v4 v4 => exact parseSocketAddr_none (not_mem_ipv4 (by decide) (by decide)) hbracket
  | v6 v6 =>
    rw [Option.eq_none_iff_forall_ne_some]
    intro addr haddr
    rcases parseSocketAddr_eq_some haddr with ⟨v4, t, htext, -⟩ | ⟨t, htext⟩
    · -- it would begin with an IPv4 address
      have hread := readIpv4_display v4 (noDigit_cons (show digitOf 10 ':' = none by decide) t)
      rw [← htext, IpAddr.display, readIpv4_ipv6] at hread
      cases hread
    · exact hbracket (by rw [htext]; exact List.mem_cons_self)

/-- **A host alone** is accepted with port 53. -/
theorem parse_text (h : Host) : parseNameserver special h.text = .ok ⟨h.canonical, defaultPort⟩ := by
  have htrim := trim_text h
  cases h with
  | ip addr =>
    obtain ⟨hbracket, hsocket⟩ := parseSocketAddr_ip addr
    have hip : parseIpAddr (unbracketed addr.display) = some addr := by
      rw [unbracketed_of_not_mem hbracket, parseIpAddr_display]
    exact parseNameserver_of_ip special htrim hsocket hip
  | name h hv =>
    have hcolon : ':' ∉ h := not_mem_of_accepted hv (by decide) (by decide)
    have hbracket : '[' ∉ h := not_mem_of_accepted hv (by decide) (by decide)
    have hsocket := parseSocketAddr_none hcolon hbracket
    cases hip : parseIpAddr (unbracketed h) with
    | none =>
      have hsplit : hostAndPort special h = .ok (h, defaultPort) := by
        rw [hostAndPort, rsplitOnce_none hcolon]
      exact (parseNameserver_of_trim special htrim hsocket hip).trans (parseHost_of_port special hsplit (by decide) hv)
    | some ip =>
      refine (parseNameserver_of_ip special htrim hsocket hip).trans ?_
      rw [unbracketed_of_not_mem hbracket] at hip
      rcases parseIpAddr_eq_some hip with ⟨v4, rfl, rfl⟩ | hcount
      · rw [Host.canonical, trimDots_ipv4]
        rfl
      · rw [List.count_eq_zero.2 hcolon] at hcount
        omega

/-! ## What is accepted -/

/-- **What is accepted** is a host and a port. -/
theorem parseNameserver_spec {raw : Str} {ns : Nameserver} (h : parseNameserver special raw = .ok ns) :
    ns.port ≠ 0 ∧ ∃ host : Host, host.canonical = host.text ∧ ns.host = host.text := by
  unfold parseNameserver at h
  simp only at h
  split at h
  · rename_i addr _
    split at h
    · cases h
    · rename_i hp
      obtain rfl := Except.ok.inj h
      exact ⟨hp, .ip addr.ip, rfl, rfl⟩
  · split at h
    · rename_i ip _
      obtain rfl := Except.ok.inj h
      exact ⟨show defaultPort ≠ 0 by decide, .ip ip, rfl, rfl⟩
    · obtain ⟨host, hv, hhost, hp⟩ := parseHost_eq_ok special h
      exact ⟨hp, .name (trimDots host) (validateFqdn_trimDots hv), trimDots_trimDots host, hhost⟩

/-- A nameserver is displayed as its host with its port. -/
theorem display_eq (ns : Nameserver) (h : Host) (hhost : ns.host = h.text) : ns.display = h.withPort ns.port := by
  have hcolon : (':' ∈ h.text) ↔ ∃ v6, h = .ip (.v6 v6) := by
    cases h with
    | ip addr =>
      cases addr with
      | v4 v4 => exact iff_of_false (not_mem_ipv4 (by decide) (by decide)) (by simp)
      | v6 v6 =>
        have hread := readIpv6_display v6 ends_nil (Ends.noGroup nofun)
        have hcount := two_colons hread
        rw [List.append_nil] at hcount
        exact iff_of_true (List.count_pos_iff.1 (Nat.lt_of_lt_of_le Nat.two_pos hcount)) ⟨v6, rfl⟩
    | name h hv => exact iff_of_false (not_mem_of_accepted hv (by decide) (by decide)) (by simp)
  unfold Nameserver.display
  rw [hhost]
  cases h with
  | ip addr =>
    cases addr with
    | v4 v4 => exact if_neg (mt hcolon.1 (by simp))
    | v6 v6 => exact if_pos (hcolon.2 ⟨v6, rfl⟩)
  | name h hv => exact if_neg (mt hcolon.1 (by simp))

/-- **Nameserver addresses survive printing and re-parsing.** -/
theorem nameserver_survives_printing :
    (∀ raw ns, parseNameserver special raw = .ok ns →
      ns.port ≠ 0 ∧
      ((∃ ip : IpAddr, ns.host = ip.display) ∨ validateFqdn ns.host = .ok () ∧ ns.host.getLast? ≠ some '.') ∧
      parseNameserver special ns.display = .ok ns) ∧
    ∀ h : Host, (∀ p : UInt16, p ≠ 0 → parseNameserver special (h.withPort p) = .ok ⟨h.canonical, p⟩) ∧
      parseNameserver special h.text = .ok ⟨h.canonical, 53⟩ := by
  refine ⟨fun raw ns h => ?_, fun h => ⟨fun p hp => parse_withPort special h hp, parse_text special h⟩⟩
  obtain ⟨hp, host, hcanonical, hhost⟩ := parseNameserver_spec special h
  refine ⟨hp, ?_, ?_⟩
  · cases host with
    | ip addr => exact Or.inl ⟨addr, hhost⟩
    | name name hv =>
      rw [hhost]
      exact Or.inr ⟨hv, getLast?_of_trimDots hcanonical⟩
  · rw [display_eq ns host hhost, parse_withPort special host hp, hcanonical, ← hhost]

end Cheti.Rfc2136
