import StorageService.Actions.Ssrf
import StorageService.Results.Outbox

/-!
# Endpoints of webhooks

Which addresses a connection can go to, whose certificate is asked for there,
and which URLs are not reported as unusable.
-/

namespace StorageService.Results

open StorageService.Foundation
open StorageService.Actions
open StorageService.Storage (strip decimal)

/-! ## Embedded addresses -/

section Embedded

variable {n : Fin (2 ^ 128)} {v : Fin (2 ^ 32)}

theorem lowBits_eq_iff (m : Nat) (v : Fin (2 ^ 32)) : lowBits m = v ↔ m % 2 ^ 32 = v.val := by
  have hmask : m &&& 0xFFFFFFFF = m % 2 ^ 32 := Nat.and_two_pow_sub_one_eq_mod m 32
  have hval : (lowBits m).val = m % 2 ^ 32 := hmask
  rw [← hval, Fin.ext_iff]

theorem inNetwork_iff (n : Fin (2 ^ 128)) (first length : Nat) :
    inNetwork n first length = true ↔
      n.val / 2 ^ (128 - length) = first / 2 ^ (128 - length) := by
  rw [inNetwork, beq_iff_eq, Nat.shiftRight_eq_div_pow, Nat.shiftRight_eq_div_pow]

theorem nat64_eq : nat64 = 0x64ff9b * 2 ^ 96 := by decide

theorem six2Four_eq : six2Four = 0x2002 * 2 ^ 112 := by decide

theorem ipv4Mapped_eq : ipv4Mapped = 0xffff * 2 ^ 32 := by decide

theorem embeds_of_embeddedIpv4 (h : embeddedIpv4 n = some v) : IpAddress.Embeds v n := by
  have hn := n.isLt
  have hv := v.isLt
  unfold embeddedIpv4 at h
  simp only [inNetwork_iff, nat64_eq, six2Four_eq, ipv4Mapped_eq, Nat.shiftRight_eq_div_pow] at h
  split at h
  · rename_i hmapped
    rw [Option.some.injEq, lowBits_eq_iff] at h
    exact .mapped (by omega)
  · split at h
    · rename_i hnat64
      rw [Option.some.injEq, lowBits_eq_iff] at h
      exact .nat64 (by omega)
    · split at h
      · rename_i hsix
        rw [Option.some.injEq, lowBits_eq_iff] at h
        have hrest : n.val % 2 ^ 80 < 2 ^ 80 := Nat.mod_lt _ (by decide)
        refine .sixToFour ⟨n.val % 2 ^ 80, hrest⟩ ?_
        dsimp only
        omega
      · split at h
        · rename_i hcompatible
          rw [Option.some.injEq, lowBits_eq_iff] at h
          exact .compatible (by omega)
        · contradiction

theorem exists_embeddedIpv4 (h : IpAddress.Embeds v n) : ∃ v', embeddedIpv4 n = some v' := by
  have hv := v.isLt
  unfold embeddedIpv4
  simp only [inNetwork_iff, nat64_eq, six2Four_eq, ipv4Mapped_eq, Nat.shiftRight_eq_div_pow]
  split
  · exact ⟨_, rfl⟩
  · split
    · exact ⟨_, rfl⟩
    · split
      · exact ⟨_, rfl⟩
      · rename_i hmapped hnat64 hsix
        rw [if_pos]
        · exact ⟨_, rfl⟩
        · cases h with
          | mapped h | compatible h | nat64 h => omega
          | sixToFour rest h =>
              have hrest := rest.isLt
              omega

theorem embeddedIpv4_eq_some (n : Fin (2 ^ 128)) (v : Fin (2 ^ 32)) :
    embeddedIpv4 n = some v ↔ IpAddress.Embeds v n := by
  refine ⟨embeds_of_embeddedIpv4, fun h => ?_⟩
  obtain ⟨v', hv'⟩ := exists_embeddedIpv4 h
  rw [hv', (embeds_of_embeddedIpv4 hv').unique h]

theorem effective_checkedAddress (a : IpAddress) : IpAddress.Effective a (checkedAddress a) := by
  cases a with
  | v4 n => exact .v4 n
  | v6 n scope =>
      rw [checkedAddress]
      cases hn : embeddedIpv4 n with
      | none =>
          refine .plain scope fun v hv => ?_
          rw [(embeddedIpv4_eq_some n v).mpr hv] at hn
          contradiction
      | some v => exact .embedded scope ((embeddedIpv4_eq_some n v).mp hn)

end Embedded

/-! ## The address a connection goes to -/

/-- A connection to the address ends at one that is global. -/
def Public (env : ResolverEnv) (a : IpAddress) : Prop :=
  ∃ effective, IpAddress.Effective a effective ∧ env.isGlobal effective = true

def Candidate (env : ResolverEnv) (parsed : ParseResult) (host : Text) (a : IpAddress) : Prop :=
  IpAddress.parse host = some a ∧
    (host = urlHostname env parsed ∨ IpAddress.parse (urlHostname env parsed) = none ∧
      ∃ port infos, env.getaddrinfo (urlHostname env parsed) port = .answers infos ∧
        ∃ info ∈ infos, info.host = host)

theorem eq_bracket_of_toLower {c : Char} (h : c.toLower = '[') : c = '[' := by
  change (if hupper : c.val ≥ 'A'.val ∧ c.val ≤ 'Z'.val then _ else c) = '[' at h
  split at h
  · rename_i hupper
    have hval : c.val + 32 = 91 := congrArg Char.val h
    have hnat := congrArg UInt32.toNat hval
    simp only [UInt32.le_iff_toNat_le, UInt32.toNat_add] at hupper hnat
    simp at hupper hnat
    omega
  · exact h

def asciiUnicode : Unicode where
  lower := fun s => s.map Char.toLower
  nfkc := id
  isDigit := Char.isDigit
  lower_nil := rfl
  lower_bracket := by
    intro s h
    cases s with
    | nil => contradiction
    | cons c s =>
        rw [List.map_cons, List.head?_cons, Option.some.injEq] at h
        rw [List.head?_cons, Option.some.injEq]
        exact eq_bracket_of_toLower h
  isDigit_ascii _ _ := rfl

def sampleResolver : ResolverEnv where
  unicode := asciiUnicode
  isGlobal
    | .v4 n => decide (n.val / 2 ^ 24 ≠ 10 ∧ n.val / 2 ^ 24 ≠ 127)
    | .v6 n _ => decide (n.val / 2 ^ 125 = 1)
  getaddrinfo _ _ := .gaiError
  serverNameAccepted name := decide (name ≠ [] ∧ name.head? ≠ some '.')

section Resolved

variable {env : ResolverEnv} {url : Text} {allowPrivate : Bool}
  {endpoint : ResolvedWebhookEndpoint}

theorem public_of_validateIp {a : IpAddress} (h : validateIp env a false = true) :
    Public env a := by
  rw [validateIp, Bool.false_or] at h
  exact ⟨checkedAddress a, effective_checkedAddress a, h⟩

theorem answer_of_resolveName {hostname : Text} {port : Nat} {found : Text × Nat}
    (h : resolveName env allowPrivate hostname port = .ok found) :
    ∃ infos, env.getaddrinfo hostname port = .answers infos ∧ ∃ info ∈ infos,
      info.host = found.1 ∧ validateIp env info.address allowPrivate = true := by
  rw [resolveName] at h
  split at h
  · contradiction
  · contradiction
  · contradiction
  · rename_i infos _ hinfos
    split at h
    · rename_i found' hfirst
      cases h
      obtain ⟨info, hinfo, rfl⟩ := Option.map_eq_some_iff.mp hfirst
      have hvalid : validateIp env info.address allowPrivate = true := by
        simpa using List.find?_some hinfo
      exact ⟨infos, hinfos, info, List.mem_of_find?_eq_some hinfo, rfl, hvalid⟩
    · contradiction

structure Accepted (env : ResolverEnv) (url : Text) (allowPrivate : Bool)
    (endpoint : ResolvedWebhookEndpoint) (parsed : ParseResult) (port : Option Nat) : Prop where
  url : urlparse env.unicode (strip url) = some parsed
  portOf : parsed.port = some port
  scheme : endpoint.scheme = parsed.scheme
  hostHeader : endpoint.hostHeader = hostHeader (urlHostname env parsed) port
  host : ∃ connectPort, resolveHost env allowPrivate parsed (urlHostname env parsed) =
    .ok (endpoint.connectHost, connectPort)

theorem resolveHost_eq_ok {parsed : ParseResult} {hostname : Text} {found : Text × Nat}
    (h : resolveHost env allowPrivate parsed hostname = .ok found) :
    ∃ port, parsed.port = some port ∧
      ((∃ literal, IpAddress.parse hostname = some literal ∧
          validateIp env literal allowPrivate = true ∧ found.1 = hostname) ∨
        IpAddress.parse hostname = none ∧
          resolveName env allowPrivate hostname (portOrDefault parsed.scheme port) =
            .ok found) := by
  unfold resolveHost at h
  cases hport : parsed.port with
  | none =>
      cases hhost : IpAddress.parse hostname with
      | none =>
          rw [hhost, hport] at h
          contradiction
      | some literal =>
          simp only [hhost, hport] at h
          split at h <;> contradiction
  | some port =>
      refine ⟨port, rfl, ?_⟩
      cases hhost : IpAddress.parse hostname with
      | none =>
          rw [hhost, hport] at h
          exact .inr ⟨rfl, h⟩
      | some literal =>
          simp only [hhost, hport] at h
          split at h
          · contradiction
          · rename_i hvalid
            cases h
            exact .inl ⟨literal, rfl, Decidable.not_not.mp hvalid, rfl⟩

theorem accepted_of_resolve (h : resolveWebhookEndpoint env url allowPrivate = .ok endpoint) :
    ∃ parsed port, Accepted env url allowPrivate endpoint parsed port := by
  rw [resolveWebhookEndpoint] at h
  split at h
  · contradiction
  · rename_i parsed hparsed
    rw [resolveParsed] at h
    split at h
    · contradiction
    · split at h
      · contradiction
      · split at h
        · contradiction
        · split at h
          · contradiction
          · rename_i connectHost connectPort hhost
            cases h
            obtain ⟨port, hport, -⟩ := resolveHost_eq_ok hhost
            refine ⟨parsed, port, hparsed, hport, rfl, ?_, connectPort, hhost⟩
            rw [hport]
            rfl

theorem candidate_of_accepted {parsed : ParseResult} {port : Option Nat}
    (h : Accepted env url allowPrivate endpoint parsed port) :
    ∃ a, Candidate env parsed endpoint.connectHost a ∧ validateIp env a allowPrivate = true := by
  obtain ⟨connectPort, hhost⟩ := h.host
  obtain ⟨port, -, ⟨literal, hliteral, hvalid, hsame⟩ | ⟨hnone, hname⟩⟩ := resolveHost_eq_ok hhost
  · dsimp only at hsame
    rw [← hsame] at hliteral
    exact ⟨literal, ⟨hliteral, .inl hsame⟩, hvalid⟩
  · obtain ⟨infos, hinfos, info, hinfo, hsame, hvalid⟩ := answer_of_resolveName hname
    dsimp only at hsame
    exact ⟨info.address,
      ⟨hsame ▸ info.literal, .inr ⟨hnone, _, infos, hinfos, info, hinfo, hsame⟩⟩, hvalid⟩

/--
Without leave to use private addresses, a URL is resolved to its own address or
to one of the answers for its name, and a connection there ends at a global
address, also where the address stands for one of IPv4; if neither the URL nor
any answer has such an address, it is refused.
-/
theorem resolve_public (env : ResolverEnv) (url : Text) :
    (∀ endpoint, resolveWebhookEndpoint env url false = .ok endpoint →
      ∃ parsed a, urlparse env.unicode (strip url) = some parsed ∧
        Candidate env parsed endpoint.connectHost a ∧ Public env a ∧
        ∀ n scope v, a = .v6 n scope → IpAddress.Embeds v n → env.isGlobal (.v4 v) = true) ∧
    ((∀ parsed host a, urlparse env.unicode (strip url) = some parsed →
        Candidate env parsed host a → ¬Public env a) →
      ∃ error, resolveWebhookEndpoint env url false = .error error) := by
  have hpublic : ∀ endpoint, resolveWebhookEndpoint env url false = .ok endpoint →
      ∃ parsed a, urlparse env.unicode (strip url) = some parsed ∧
        Candidate env parsed endpoint.connectHost a ∧ Public env a := by
    intro endpoint h
    obtain ⟨parsed, port, haccepted⟩ := accepted_of_resolve h
    obtain ⟨a, hcandidate, hvalid⟩ := candidate_of_accepted haccepted
    exact ⟨parsed, a, haccepted.url, hcandidate, public_of_validateIp hvalid⟩
  refine ⟨?_, ?_⟩
  · intro endpoint h
    obtain ⟨parsed, a, hparsed, hcandidate, effective, heffective, hglobal⟩ := hpublic endpoint h
    refine ⟨parsed, a, hparsed, hcandidate, ⟨effective, heffective, hglobal⟩, ?_⟩
    rintro n scope v rfl hembeds
    rwa [heffective.unique (.embedded scope hembeds)] at hglobal
  · intro hnone
    cases hresult : resolveWebhookEndpoint env url false with
    | error error => exact ⟨error, rfl⟩
    | ok endpoint =>
        obtain ⟨parsed, a, hparsed, hcandidate, ha⟩ := hpublic endpoint hresult
        exact absurd ha (hnone parsed _ a hparsed hcandidate)

theorem resolve_public_nat64 : ∃ parsed a,
    urlparse sampleResolver.unicode (strip "http://[64:ff9b::808:808]/".toList) = some parsed ∧
      Candidate sampleResolver parsed "64:ff9b::808:808".toList a ∧ Public sampleResolver a := by
  obtain ⟨parsed, a, hparsed, hcandidate, hpublic, -⟩ :=
    (resolve_public sampleResolver "http://[64:ff9b::808:808]/".toList).1
      ⟨_, _, "64:ff9b::808:808".toList, _, _, _⟩ rfl
  exact ⟨parsed, a, hparsed, hcandidate, hpublic⟩

end Resolved

/-! ## The name on the certificate -/

section Hostname

variable {unicode : Unicode} {parsed : ParseResult}

theorem checkBracketedHost_head {hostname : Text} (h : checkBracketedHost hostname = true) :
    hostname.head? ≠ some '[' := by
  intro hhead
  obtain ⟨rest, rfl⟩ := List.head?_eq_some_iff.mp hhead
  rw [checkBracketedHost, if_neg (by simp), IpAddress.parse_bracket] at h
  contradiction

theorem mem_of_mem_afterLast {sep c : Char} {s : Text} (h : c ∈ afterLast sep s) : c ∈ s :=
  (List.rtakeWhile_suffix _ s).subset h

theorem hostinfo_head (h : bracketsAccepted parsed.netloc = true) :
    parsed.hostinfo.1.head? ≠ some '[' := by
  intro hhead
  rw [ParseResult.hostinfo] at hhead
  split at hhead
  · rename_i hopen
    have hnetloc : parsed.netloc.contains '[' = true := by
      rw [List.contains_iff_mem] at hopen ⊢
      exact mem_of_mem_afterLast hopen
    rw [bracketsAccepted, hnetloc] at h
    split at h
    · rw [checkBracketedNetloc, if_pos hopen] at h
      exact checkBracketedHost_head (Bool.and_eq_true_iff.mp h).2 hhead
    · contradiction
  · rename_i hopen
    have hmem := List.mem_of_mem_head? (Option.mem_def.mpr hhead)
    refine hopen ?_
    rw [List.contains_iff_mem]
    exact (List.takeWhile_prefix _).subset hmem

theorem bracketsAccepted_of_urlparse {url : Text} (h : urlparse unicode url = some parsed) :
    bracketsAccepted parsed.netloc = true := by
  rw [urlparse] at h
  dsimp only at h
  split at h
  · rename_i haccepted
    cases h
    exact (Bool.and_eq_true_iff.mp haccepted).1
  · contradiction

theorem hostname_head (h : bracketsAccepted parsed.netloc = true) :
    (parsed.hostname unicode).head? ≠ some '[' := by
  intro hhead
  rw [ParseResult.hostname] at hhead
  split at hhead
  · contradiction
  · refine hostinfo_head h ?_
    cases hlower : unicode.lower (before '%' parsed.hostinfo.1) with
    | nil =>
        rw [hlower, List.nil_append] at hhead
        have hpercent := List.head?_dropWhile_not (fun c => decide (c ≠ '%')) parsed.hostinfo.1
        rw [hhead] at hpercent
        contradiction
    | cons c rest =>
        rw [hlower, List.cons_append, List.head?_cons, Option.some.injEq] at hhead
        have hname := unicode.lower_bracket (before '%' parsed.hostinfo.1)
          (by rw [hlower, hhead, List.head?_cons])
        obtain ⟨rest', hrest'⟩ := List.head?_eq_some_iff.mp hname
        obtain ⟨tail, htail⟩ := List.takeWhile_prefix (l := parsed.hostinfo.1)
          fun c => decide (c ≠ '%')
        rw [before] at hrest'
        rw [← htail, hrest']
        rfl

end Hostname

section Colons

theorem afterLast_append {sep : Char} {tail : Text} (head : Text) (h : sep ∉ tail) :
    afterLast sep (head ++ sep :: tail) = tail := by
  rw [afterLast, List.rtakeWhile, List.reverse_append, List.reverse_cons, List.append_assoc,
    List.takeWhile_append_of_pos]
  · simp
  · intro c hc
    have : c ≠ sep := by
      rintro rfl
      exact h (List.mem_reverse.mp hc)
    simpa using this

theorem exists_last {sep : Char} {s : Text} (h : sep ∈ s) :
    ∃ head tail, s = head ++ sep :: tail ∧ sep ∉ tail := by
  induction s with
  | nil => contradiction
  | cons c s ih =>
      by_cases hs : sep ∈ s
      · obtain ⟨head, tail, rfl, htail⟩ := ih hs
        exact ⟨c :: head, tail, rfl, htail⟩
      · obtain rfl : sep = c := (List.mem_cons.mp h).resolve_right hs
        exact ⟨[], s, rfl, hs⟩

theorem splitPort_append {tail : Text} (head : Text) (h : ':' ∉ tail) :
    splitPort (head ++ ':' :: tail) = (some head, tail) := by
  have hlength : (head ++ ':' :: tail).length - tail.length - 1 = head.length := by
    rw [List.length_append, List.length_cons]
    omega
  rw [splitPort, afterLast_append head h, if_pos (by simp), hlength, List.take_left]

theorem splitPort_of_not_mem {s : Text} (h : ':' ∉ s) : (splitPort s).1 = none := by
  rw [splitPort, if_neg (by simpa using h)]

end Colons

def EndsInDigits (env : ResolverEnv) (hostname : Text) : Prop :=
  ∃ head tail, hostname = head ++ ':' :: tail ∧ tail ≠ [] ∧
    tail.all env.unicode.isDigit = true

section TlsName

variable {env : ResolverEnv} {endpoint : ResolvedWebhookEndpoint}

theorem colon_not_mem_digits {tail : Text} (h : tail.all env.unicode.isDigit = true) :
    ':' ∉ tail := by
  intro hmem
  have hdigit := List.all_eq_true.mp h ':' hmem
  rw [env.unicode.isDigit_ascii ':' (by decide)] at hdigit
  contradiction

theorem decimal_isDigit (n : Nat) : (decimal n).all env.unicode.isDigit = true := by
  rw [List.all_eq_true]
  intro c hc
  have hdigit : c.isDigit = true := Nat.isDigit_of_mem_toDigits (by decide) (by decide) hc
  rw [env.unicode.isDigit_ascii c ?_]
  · exact hdigit
  · simp only [Char.isDigit, Bool.and_eq_true, decide_eq_true_eq, UInt32.le_iff_toNat_le] at hdigit
    exact lt_of_le_of_lt hdigit.2 (by decide)

/-- Without a bracket in front, the text is cut at the last colon if digits follow it. -/
theorem tlsServerName_append {head tail : Text} (hhead : head.head? ≠ some '[')
    (hheader : endpoint.hostHeader = head ++ ':' :: tail) (hne : tail ≠ [])
    (hdigits : tail.all env.unicode.isDigit = true) : tlsServerName env endpoint = head := by
  have hbracket : ¬endpoint.hostHeader.head? = some '[' := by
    rw [hheader]
    cases head with
    | nil => simp
    | cons c head => simpa using hhead
  simp only [tlsServerName, serverNameOf]
  rw [if_neg hbracket, hheader, splitPort_append head (colon_not_mem_digits hdigits)]
  exact if_pos ⟨hne, hdigits⟩

theorem tlsServerName_eq_self {hostname : Text} (hhead : hostname.head? ≠ some '[')
    (hheader : endpoint.hostHeader = hostname) (hdigits : ¬EndsInDigits env hostname) :
    tlsServerName env endpoint = hostname := by
  subst hheader
  simp only [tlsServerName, serverNameOf]
  rw [if_neg hhead]
  by_cases hcolon : ':' ∈ endpoint.hostHeader
  · obtain ⟨head, tail, hsplit, htail⟩ := exists_last hcolon
    rw [hsplit, splitPort_append head htail]
    exact if_neg fun h => hdigits ⟨head, tail, hsplit, h.1, h.2⟩
  · have hnone := splitPort_of_not_mem hcolon
    split
    · rename_i heq
      rw [heq] at hnone
      contradiction
    · rfl

theorem urlHostname_head {unicode : Unicode} {url : Text} {parsed : ParseResult}
    (henv : env.unicode = unicode) (h : urlparse unicode url = some parsed) :
    (urlHostname env parsed).head? ≠ some '[' := by
  subst henv
  intro hhead
  exact hostname_head (bracketsAccepted_of_urlparse h)
    (env.unicode.lower_bracket _ hhead)

/--
The name that TLS asks for is the lower-cased host name of the URL exactly where
the URL gives a port other than 0, 80 and 443, or the host name does not end in a
colon and digits.
-/
theorem tlsServerName_eq_iff (env : ResolverEnv) (url : Text) (allowPrivate : Bool)
    (endpoint : ResolvedWebhookEndpoint)
    (h : resolveWebhookEndpoint env url allowPrivate = .ok endpoint) :
    ∃ parsed port, urlparse env.unicode (strip url) = some parsed ∧ parsed.port = some port ∧
      (tlsServerName env endpoint = urlHostname env parsed ↔
        (∃ p, port = some p ∧ p ≠ 0 ∧ p ≠ 80 ∧ p ≠ 443) ∨
          ¬EndsInDigits env (urlHostname env parsed)) := by
  obtain ⟨parsed, port, haccepted⟩ := accepted_of_resolve h
  have hhead : (urlHostname env parsed).head? ≠ some '[' := urlHostname_head rfl haccepted.url
  have hheader := haccepted.hostHeader
  refine ⟨parsed, port, haccepted.url, haccepted.portOf, ?_⟩
  rw [hostHeader] at hheader
  split at hheader
  · rename_i husual
    have hport : ¬∃ p, port = some p ∧ p ≠ 0 ∧ p ≠ 80 ∧ p ≠ 443 := by
      rintro ⟨p, rfl, hp⟩
      simp only [Option.getD_some] at husual
      omega
    constructor
    · intro hsame
      refine .inr ?_
      rintro ⟨head, tail, hsplit, hne, hdigits⟩
      have hhead' : head.head? ≠ some '[' := by
        rw [hsplit] at hhead
        cases head with
        | nil => simp
        | cons c head => simpa using hhead
      rw [hsplit] at hheader
      rw [tlsServerName_append hhead' hheader hne hdigits, hsplit] at hsame
      have hlength := congrArg List.length hsame
      rw [List.length_append, List.length_cons] at hlength
      omega
    · intro hcondition
      exact tlsServerName_eq_self hhead hheader (hcondition.resolve_left hport)
  · rename_i husual
    have hport : ∃ p, port = some p ∧ p ≠ 0 ∧ p ≠ 80 ∧ p ≠ 443 := by
      cases port with
      | none => exact absurd (.inl rfl) husual
      | some p =>
          simp only [Option.getD_some] at husual
          exact ⟨p, rfl, by omega⟩
    have hne : decimal (port.getD 0) ≠ [] := Nat.toDigits_ne_nil
    have hdigits : (decimal (port.getD 0)).all env.unicode.isDigit = true := decimal_isDigit _
    exact ⟨fun _ => .inl hport, fun _ => tlsServerName_append hhead hheader hne hdigits⟩

end TlsName

def addressUrl : Text := "https://[2606:4700::1111]/hook".toList

def addressEndpoint : ResolvedWebhookEndpoint where
  originalUrl := addressUrl
  scheme := "https".toList
  connectHost := "2606:4700::1111".toList
  port := 443
  hostHeader := "2606:4700::1111".toList
  path := "/hook".toList

def addressParsed : ParseResult where
  scheme := "https".toList
  netloc := "[2606:4700::1111]".toList
  path := "/hook".toList
  query := []

/-- The last part of the address is taken for a port. -/
theorem tlsServerName_ne_hostname :
    urlparse sampleResolver.unicode (strip addressUrl) = some addressParsed ∧
      resolveWebhookEndpoint sampleResolver addressUrl false = .ok addressEndpoint ∧
      tlsServerName sampleResolver addressEndpoint = "2606:4700:".toList ∧
      tlsServerName sampleResolver addressEndpoint ≠
        urlHostname sampleResolver addressParsed := by
  refine ⟨?_, ?_, ?_, ?_⟩
  · decide +kernel
  · rfl
  · decide +kernel
  · decide +kernel

def portedUrl : Text := "https://[2606:4700::1111]:8443/hook".toList

theorem tlsServerName_eq_iff_ported :
    ∃ parsed port, urlparse sampleResolver.unicode (strip portedUrl) = some parsed ∧
      parsed.port = some port ∧
      (tlsServerName sampleResolver
          { addressEndpoint with
            originalUrl := portedUrl, port := 8443
            hostHeader := "2606:4700::1111:8443".toList } = urlHostname sampleResolver parsed ↔
        (∃ p, port = some p ∧ p ≠ 0 ∧ p ≠ 80 ∧ p ≠ 443) ∨
          ¬EndsInDigits sampleResolver (urlHostname sampleResolver parsed)) :=
  tlsServerName_eq_iff sampleResolver portedUrl false _ rfl

/-! ## URLs that are reported -/

def Reported {α : Type} : Except ResolveError α → Prop
  | .ok _ | .error (.ssrf _) => True
  | .error _ => False

def RefusedEarly (env : ResolverEnv) (allowPrivate : Bool) (parsed : ParseResult) : Prop :=
  (parsed.scheme ≠ "http".toList ∧ parsed.scheme ≠ "https".toList) ∨
    urlHostname env parsed = [] ∨
    (blockedHostnames.contains (urlHostname env parsed) = true ∧ allowPrivate = false)

/--
The host is an address that is not let through, or the port can be read and the
host is an address or a name that can be encoded.
-/
def HostReadable (env : ResolverEnv) (allowPrivate : Bool) (parsed : ParseResult) : Prop :=
  match IpAddress.parse (urlHostname env parsed), parsed.port with
  | some literal, none => validateIp env literal allowPrivate = false
  | some _, some _ => True
  | none, some port =>
      isUnicodeError
        (env.getaddrinfo (urlHostname env parsed) (portOrDefault parsed.scheme port)) = false
  | none, none => False

/--
The URL has well-formed brackets and a host of plain characters, and unless it is
refused at once, its host and its port can be read.
-/
def Readable (env : ResolverEnv) (url : Text) (allowPrivate : Bool) : Prop :=
  ∃ parsed, urlparse env.unicode (strip url) = some parsed ∧
    (RefusedEarly env allowPrivate parsed ∨ HostReadable env allowPrivate parsed)

section Reported

variable {env : ResolverEnv} {url : Text} {allowPrivate : Bool} {parsed : ParseResult}

theorem reported_resolveName_iff {hostname : Text} {port : Nat} :
    Reported (resolveName env allowPrivate hostname port) ↔
      isUnicodeError (env.getaddrinfo hostname port) = false := by
  rw [resolveName]
  cases env.getaddrinfo hostname port with
  | unicodeError => simp [Reported, isUnicodeError]
  | gaiError => simp [Reported, isUnicodeError, unresolved]
  | answers infos =>
      cases infos with
      | nil => simp [Reported, isUnicodeError, unresolved]
      | cons info infos =>
          dsimp only
          split <;> simp [Reported, isUnicodeError]

theorem reported_resolveHost_iff :
    Reported (resolveHost env allowPrivate parsed (urlHostname env parsed)) ↔
      HostReadable env allowPrivate parsed := by
  rw [resolveHost, HostReadable]
  cases IpAddress.parse (urlHostname env parsed) with
  | none =>
      cases parsed.port with
      | none => simp [Reported]
      | some port => exact reported_resolveName_iff
  | some literal =>
      cases hvalid : validateIp env literal allowPrivate with
      | false => cases parsed.port <;> simp [Reported, hvalid, privateAddress]
      | true => cases parsed.port <;> simp [Reported, hvalid]

theorem reported_resolveParsed_iff :
    Reported (resolveParsed env url allowPrivate parsed) ↔
      RefusedEarly env allowPrivate parsed ∨ HostReadable env allowPrivate parsed := by
  rw [← reported_resolveHost_iff, RefusedEarly, resolveParsed]
  split
  · rename_i hscheme
    exact iff_of_true trivial (.inl (.inl hscheme))
  · rename_i hscheme
    split
    · rename_i hname
      exact iff_of_true trivial (.inl (.inr (.inl hname)))
    · rename_i hname
      split
      · rename_i hblocked
        exact iff_of_true trivial
          (.inl (.inr (.inr ⟨hblocked.1, Bool.eq_false_iff.mpr hblocked.2⟩)))
      · rename_i hblocked
        have hnot : ¬(blockedHostnames.contains (urlHostname env parsed) = true ∧
            allowPrivate = false) := fun h => hblocked ⟨h.1, by simp [h.2]⟩
        simp only [hscheme, hname, hnot, false_or]
        cases resolveHost env allowPrivate parsed (urlHostname env parsed) with
        | error error => cases error <;> simp [Reported]
        | ok found => simp [Reported]

theorem reported_resolve_iff :
    Reported (resolveWebhookEndpoint env url allowPrivate) ↔ Readable env url allowPrivate := by
  rw [resolveWebhookEndpoint, Readable]
  cases hparsed : urlparse env.unicode (strip url) with
  | none => simp [Reported]
  | some parsed => simpa using reported_resolveParsed_iff

theorem reported_iff {α : Type} (result : Except ResolveError α) :
    Reported result ↔
      (∃ a, result = .ok a) ∨ ∃ message, result = .error (.ssrf message) := by
  cases result with
  | ok a => simp [Reported]
  | error error => cases error <;> simp [Reported]

/-! ### Requests that go out -/

/-- Where a connection for the host of a URL goes: to its address, or to the first answer for
its name that is let through. -/
inductive ConnectsTo (env : ResolverEnv) (allowPrivate : Bool) (hostname : Text) (port : Nat) :
    Text → Nat → Prop where
  | literal {a : IpAddress} (hparse : IpAddress.parse hostname = some a)
      (hvalid : validateIp env a allowPrivate = true) :
      ConnectsTo env allowPrivate hostname port hostname port
  | answer {front back : List AddrInfo} {info : AddrInfo}
      (hparse : IpAddress.parse hostname = none)
      (hinfos : env.getaddrinfo hostname port = .answers (front ++ info :: back))
      (hfront : ∀ other ∈ front, validateIp env other.address allowPrivate = false)
      (hvalid : validateIp env info.address allowPrivate = true) :
      ConnectsTo env allowPrivate hostname port info.host
        (if info.port = 0 then port else info.port)

/-- The request can be written down: its path has printable characters of ASCII alone, its host
has no control characters and fits into a header of Latin-1, and the address it goes to and, over
TLS, the name that is asked for there have an encoding. -/
structure Sendable (env : ResolverEnv) (parsed : ParseResult) (port : Option Nat)
    (connectHost : Text) (connectPort : Nat) : Prop where
  path : ∀ c ∈ parsed.path ++ parsed.query, isControl c = false ∧ c.toNat < 128
  latin1 : ∀ c ∈ hostHeader (urlHostname env parsed) port, c.toNat < 256
  header : illegalHeaderValue (hostHeader (urlHostname env parsed) port) = false
  host : parsed.scheme ≠ "https".toList →
    ∀ c ∈ socketConnectHost connectHost, isControl c = false
  address : isUnicodeError (env.getaddrinfo (socketConnectHost connectHost) connectPort) = false
  serverName : parsed.scheme = "https".toList →
    env.serverNameAccepted (serverNameOf env (hostHeader (urlHostname env parsed) port)) = true ∧
      ∀ c ∈ serverNameOf env (hostHeader (urlHostname env parsed) port), isControl c = false

/-- The URL is refused at once, or its host and its port can be read and, where they lead to an
address, the request can be written down. -/
def Usable (env : ResolverEnv) (url : Text) (allowPrivate : Bool) : Prop :=
  ∃ parsed, urlparse env.unicode (strip url) = some parsed ∧
    (RefusedEarly env allowPrivate parsed ∨
      HostReadable env allowPrivate parsed ∧ ∀ port connectHost connectPort,
        parsed.port = some port →
        ConnectsTo env allowPrivate (urlHostname env parsed) (portOrDefault parsed.scheme port)
          connectHost connectPort →
        Sendable env parsed port connectHost connectPort)

theorem readable_of_usable (h : Usable env url allowPrivate) : Readable env url allowPrivate := by
  obtain ⟨parsed, hparsed, hearly | ⟨hreadable, -⟩⟩ := h
  · exact ⟨parsed, hparsed, .inl hearly⟩
  · exact ⟨parsed, hparsed, .inr hreadable⟩

theorem resolveName_eq_ok_iff {hostname : Text} {port : Nat} {found : Text × Nat}
    (hparse : IpAddress.parse hostname = none) :
    resolveName env allowPrivate hostname port = .ok found ↔
      ConnectsTo env allowPrivate hostname port found.1 found.2 := by
  constructor
  · intro h
    rw [resolveName] at h
    split at h
    · contradiction
    · contradiction
    · contradiction
    · rename_i infos _ hinfos
      split at h
      · rename_i found' hfirst
        cases h
        obtain ⟨info, hfind, rfl⟩ := Option.map_eq_some_iff.mp hfirst
        obtain ⟨hvalid, front, back, rfl, hfront⟩ := List.find?_eq_some_iff_append.mp hfind
        exact .answer hparse hinfos (fun other hother => by simpa using hfront other hother) hvalid
      · contradiction
  · intro h
    obtain ⟨connectHost, connectPort⟩ := found
    cases h with
    | literal hsome => rw [hparse] at hsome; contradiction
    | @answer front back info _ hinfos hfront hvalid =>
        have hfind : (front ++ info :: back).find? (fun other =>
            validateIp env other.address allowPrivate) = some info :=
          List.find?_eq_some_iff_append.mpr
            ⟨hvalid, front, back, rfl, fun other hother => by simp [hfront other hother]⟩
        rw [resolveName, hinfos]
        cases hcons : front ++ info :: back with
        | nil => simp at hcons
        | cons first rest =>
            rw [hcons] at hfind
            simp only [firstAnswer, hfind]
            rfl

theorem resolveHost_eq_ok_iff {found : Text × Nat} :
    resolveHost env allowPrivate parsed (urlHostname env parsed) = .ok found ↔
      ∃ port, parsed.port = some port ∧ ConnectsTo env allowPrivate (urlHostname env parsed)
        (portOrDefault parsed.scheme port) found.1 found.2 := by
  rw [resolveHost]
  cases hparse : IpAddress.parse (urlHostname env parsed) with
  | none =>
      cases parsed.port with
      | none => simp
      | some port => simpa using resolveName_eq_ok_iff hparse
  | some literal =>
      have hliteral : ∀ {port : Nat}, validateIp env literal allowPrivate = true →
          (Except.ok (urlHostname env parsed, port) = (Except.ok found : Except ResolveError _) ↔
            ConnectsTo env allowPrivate (urlHostname env parsed) port found.1 found.2) := by
        intro port hvalid
        rw [Except.ok.injEq]
        constructor
        · rintro rfl
          exact .literal hparse hvalid
        · obtain ⟨connectHost, connectPort⟩ := found
          intro h
          cases h with
          | literal => rfl
          | answer hnone => rw [hparse] at hnone; contradiction
      dsimp only
      by_cases hvalid : validateIp env literal allowPrivate = true
      swap
      · rw [if_pos hvalid]
        have hnever : ∀ port, ¬ConnectsTo env allowPrivate (urlHostname env parsed) port found.1
            found.2 := by
          obtain ⟨connectHost, connectPort⟩ := found
          intro port h
          cases h with
          | literal hparse' hvalid' =>
              rw [hparse, Option.some_inj] at hparse'
              rw [hparse'] at hvalid
              exact hvalid hvalid'
          | answer hnone => rw [hparse] at hnone; contradiction
        simp [hnever]
      · rw [if_neg (not_not.mpr hvalid)]
        cases parsed.port with
        | none => simp
        | some port =>
            simp only [Option.some_inj, exists_eq_left']
            exact hliteral hvalid

def endpointOf (env : ResolverEnv) (url : Text) (parsed : ParseResult) (port : Option Nat)
    (connectHost : Text) (connectPort : Nat) : ResolvedWebhookEndpoint :=
  let path := if parsed.path = [] then ['/'] else parsed.path
  { originalUrl := strip url
    scheme := parsed.scheme
    connectHost := connectHost
    port := connectPort
    hostHeader := hostHeader (urlHostname env parsed) port
    path := if parsed.query = [] then path else path ++ '?' :: parsed.query }

theorem resolveParsed_eq_ok_iff {endpoint : ResolvedWebhookEndpoint} :
    resolveParsed env url allowPrivate parsed = .ok endpoint ↔
      ¬RefusedEarly env allowPrivate parsed ∧ ∃ port connectHost connectPort,
        parsed.port = some port ∧ ConnectsTo env allowPrivate (urlHostname env parsed)
          (portOrDefault parsed.scheme port) connectHost connectPort ∧
        endpoint = endpointOf env url parsed port connectHost connectPort := by
  have hhost := @resolveHost_eq_ok_iff env allowPrivate parsed
  rw [resolveParsed]
  by_cases hscheme : parsed.scheme ≠ "http".toList ∧ parsed.scheme ≠ "https".toList
  · rw [if_pos hscheme]
    exact iff_of_false (by simp) fun h => h.1 (.inl hscheme)
  by_cases hname : urlHostname env parsed = []
  · rw [if_neg hscheme, if_pos hname]
    exact iff_of_false (by simp) fun h => h.1 (.inr (.inl hname))
  by_cases hblocked : blockedHostnames.contains (urlHostname env parsed) ∧ ¬allowPrivate
  · rw [if_neg hscheme, if_neg hname, if_pos hblocked]
    exact iff_of_false (by simp) fun h =>
      h.1 (.inr (.inr ⟨hblocked.1, Bool.eq_false_iff.mpr hblocked.2⟩))
  rw [if_neg hscheme, if_neg hname, if_neg hblocked]
  have hlate : ¬RefusedEarly env allowPrivate parsed := by
    rintro (h | h | ⟨h, hprivate⟩)
    · exact hscheme h
    · exact hname h
    · exact hblocked ⟨h, by simp [hprivate]⟩
  rw [and_iff_right hlate]
  cases hresult : resolveHost env allowPrivate parsed (urlHostname env parsed) with
  | error error =>
      simp only [reduceCtorEq, false_iff]
      rintro ⟨port, connectHost, connectPort, hport, hconnects, -⟩
      have hfound := (@hhost (connectHost, connectPort)).mpr ⟨port, hport, hconnects⟩
      rw [hresult] at hfound
      contradiction
  | ok found =>
      obtain ⟨port, hport, hconnects⟩ := hhost.mp hresult
      rw [Except.ok.injEq, hport]
      constructor
      · rintro rfl
        exact ⟨port, found.1, found.2, rfl, hconnects, rfl⟩
      · rintro ⟨port', connectHost, connectPort, hport', hconnects', rfl⟩
        have hsame := (@hhost (connectHost, connectPort)).mpr
          ⟨port', hport.trans hport', hconnects'⟩
        rw [hresult, Except.ok.injEq] at hsame
        cases hport'
        rw [hsame]
        rfl

def GoesOut (env : ResolverEnv) (endpoint : ResolvedWebhookEndpoint) : Prop :=
  buildRequest env endpoint = .ok () ∧
    isUnicodeError (env.getaddrinfo (socketConnectHost endpoint.connectHost) endpoint.port) =
      false ∧
    (endpoint.scheme = "https".toList →
      env.serverNameAccepted (tlsServerName env endpoint) = true)

theorem buildRequest_eq_ok_iff {endpoint : ResolvedWebhookEndpoint} :
    buildRequest env endpoint = .ok () ↔ (∀ c ∈ clientHost env endpoint, isControl c = false) ∧
      (∀ c ∈ endpoint.path, isControl c = false ∧ c.toNat < 128) ∧
      (∀ c ∈ endpoint.hostHeader, c.toNat < 256) ∧
      illegalHeaderValue endpoint.hostHeader = false := by
  rw [buildRequest, forall₂_and]
  split
  · simp_all
  · split
    · simp_all
    · split
      · simp_all
      · split
        · simp_all
        · split
          · simp_all
          · simp_all

theorem endpointOf_path_iff {port : Option Nat} {connectHost : Text} {connectPort : Nat}
    {P : Char → Prop} (hslash : P '/') (hmark : P '?') :
    (∀ c ∈ (endpointOf env url parsed port connectHost connectPort).path, P c) ↔
      ∀ c ∈ parsed.path ++ parsed.query, P c := by
  simp only [endpointOf]
  by_cases hpath : parsed.path = []
  · by_cases hquery : parsed.query = []
    · simp [hpath, hquery, hslash]
    · simp [hpath, hquery, hslash, hmark]
  · by_cases hquery : parsed.query = []
    · simp [hpath, hquery]
    · simp [hpath, hquery, hmark, or_imp, forall_and]

theorem goesOut_endpointOf_iff {port : Option Nat} {connectHost : Text} {connectPort : Nat} :
    GoesOut env (endpointOf env url parsed port connectHost connectPort) ↔
      Sendable env parsed port connectHost connectPort := by
  rw [GoesOut, buildRequest_eq_ok_iff, endpointOf_path_iff (by decide) (by decide)]
  by_cases hscheme : parsed.scheme = "https".toList
  · have hclient : clientHost env (endpointOf env url parsed port connectHost connectPort) =
        serverNameOf env (hostHeader (urlHostname env parsed) port) := if_pos hscheme
    rw [hclient]
    constructor
    · rintro ⟨⟨hname, hpath, hlatin1, hheader⟩, haddress, haccepted⟩
      exact ⟨hpath, hlatin1, hheader, fun hne => absurd hscheme hne, haddress,
        fun _ => ⟨haccepted hscheme, hname⟩⟩
    · intro h
      exact ⟨⟨(h.serverName hscheme).2, h.path, h.latin1, h.header⟩, h.address,
        fun _ => (h.serverName hscheme).1⟩
  · have hclient : clientHost env (endpointOf env url parsed port connectHost connectPort) =
        socketConnectHost connectHost := if_neg hscheme
    rw [hclient]
    constructor
    · rintro ⟨⟨hhost, hpath, hlatin1, hheader⟩, haddress, -⟩
      exact ⟨hpath, hlatin1, hheader, fun _ => hhost, haddress, fun heq => absurd heq hscheme⟩
    · intro h
      exact ⟨⟨h.host hscheme, h.path, h.latin1, h.header⟩, h.address,
        fun heq => absurd heq hscheme⟩

def Harmless (env : ResolverEnv) : Except ResolveError ResolvedWebhookEndpoint → Prop
  | .ok endpoint => GoesOut env endpoint
  | .error error => Reported (.error error : Except ResolveError ResolvedWebhookEndpoint)

theorem harmless_resolve_iff :
    Harmless env (resolveWebhookEndpoint env url allowPrivate) ↔ Usable env url allowPrivate := by
  rw [resolveWebhookEndpoint]
  cases hparsed : urlparse env.unicode (strip url) with
  | none => simp [Harmless, Reported, Usable, hparsed]
  | some parsed =>
      have hok := @resolveParsed_eq_ok_iff env url allowPrivate parsed
      have husable : Usable env url allowPrivate ↔ RefusedEarly env allowPrivate parsed ∨
          HostReadable env allowPrivate parsed ∧ ∀ port connectHost connectPort,
            parsed.port = some port →
            ConnectsTo env allowPrivate (urlHostname env parsed)
              (portOrDefault parsed.scheme port) connectHost connectPort →
            Sendable env parsed port connectHost connectPort := by
        simp [Usable, hparsed]
      rw [husable]
      dsimp only
      cases hresult : resolveParsed env url allowPrivate parsed with
      | error error =>
          have hreported := @reported_resolveParsed_iff env url allowPrivate parsed
          rw [hresult] at hreported
          refine hreported.trans (or_congr_right' ?_)
          intro hlate
          refine (and_iff_left ?_).symm
          intro port connectHost connectPort hport hconnects
          have hsome := hok.mpr ⟨hlate, port, connectHost, connectPort, hport, hconnects, rfl⟩
          rw [hresult] at hsome
          contradiction
      | ok endpoint =>
          have hreported := @reported_resolveParsed_iff env url allowPrivate parsed
          rw [hresult] at hreported
          obtain ⟨hlate, port, connectHost, connectPort, hport, hconnects, rfl⟩ := hok.mp hresult
          rw [or_iff_right hlate, and_iff_right ((hreported.mp trivial).resolve_left hlate)]
          refine goesOut_endpointOf_iff.trans ⟨?_, ?_⟩
          · intro h port' connectHost' connectPort' hport' hconnects'
            have hsame :=
              hok.mpr ⟨hlate, port', connectHost', connectPort', hport', hconnects', rfl⟩
            rw [hresult, Except.ok.injEq] at hsame
            exact goesOut_endpointOf_iff.mp (hsame ▸ goesOut_endpointOf_iff.mpr h)
          · exact fun h => h port connectHost connectPort hport hconnects

theorem exchangeOf_of_harmless {result : Except ResolveError ResolvedWebhookEndpoint}
    (h : Harmless env result) (message : ResolveError → Text) (network : Network) :
    (∃ reason, exchangeOf env message network result = .blocked reason) ∨
      exchangeOf env message network result = network.outcome := by
  cases result with
  | error error =>
      cases error with
      | ssrf reason => exact .inl ⟨reason, rfl⟩
      | valueError | unicodeError | invalidUrl => exact h.elim
  | ok endpoint =>
      obtain ⟨hbuilt, haddress, haccepted⟩ := h
      have hname : ¬(network.refused = none ∧ endpoint.scheme = "https".toList ∧
          ¬env.serverNameAccepted (tlsServerName env endpoint)) :=
        fun h => h.2.2 (haccepted h.2.1)
      right
      rw [exchangeOf, postResolvedWebhook, hbuilt]
      dsimp only
      rw [if_neg (by simp [haddress]), if_neg hname]

theorem exchangeOf_of_not_harmless {result : Except ResolveError ResolvedWebhookEndpoint}
    (h : ¬Harmless env result) (message : ResolveError → Text) (network : Network)
    (hopen : network.refused = none) :
    ∃ error, exchangeOf env message network result = .raised (message error) := by
  cases result with
  | error error =>
      cases error with
      | ssrf reason => exact absurd trivial h
      | valueError | unicodeError | invalidUrl => exact ⟨_, rfl⟩
  | ok endpoint =>
      rw [exchangeOf, postResolvedWebhook]
      cases hbuilt : buildRequest env endpoint with
      | error error => exact ⟨error, rfl⟩
      | ok u =>
          dsimp only
          split
          · exact ⟨_, rfl⟩
          · rename_i haddress
            split
            · exact ⟨_, rfl⟩
            · rename_i hname
              refine absurd ⟨hbuilt, Bool.eq_false_iff.mpr haddress, fun hscheme => ?_⟩ h
              exact not_not.mp fun hrefused => hname ⟨hopen, hscheme, hrefused⟩

def answering : Network where
  refused := none
  sent := .response ⟨200, none, none, none⟩

def PostReported (env : ResolverEnv) (delivery : DeliveryEnv)
    (result : Except ResolveError ResolvedWebhookEndpoint) : Prop :=
  ∀ message network,
    (∃ reason, postWebhookUrl delivery (exchangeOf env message network result) =
      .error (.httpError reason)) ∨
    postWebhookUrl delivery (exchangeOf env message network result) =
      postWebhookUrl delivery network.outcome

def EmailReported (env : ResolverEnv) (delivery : DeliveryEnv)
    (result : Except ResolveError ResolvedWebhookEndpoint) : Prop :=
  ∀ message network,
    (∃ attempt, deliverEmailEvent delivery (exchangeOf env message network result) =
      .ok (false, attempt) ∧ attempt.permanent = true) ∨
    deliverEmailEvent delivery (exchangeOf env message network result) =
      deliverEmailEvent delivery network.outcome

theorem postReported_iff {delivery : DeliveryEnv}
    {result : Except ResolveError ResolvedWebhookEndpoint} :
    PostReported env delivery result ↔ Harmless env result := by
  constructor
  · intro h
    by_contra hharm
    obtain ⟨error, hraised⟩ := exchangeOf_of_not_harmless hharm (fun _ => []) answering
      rfl
    rcases h (fun _ => []) answering with ⟨reason, hreason⟩ | hsame
    · rw [hraised] at hreason
      cases hreason
    · rw [hraised] at hsame
      cases hsame
  · intro h message network
    rcases exchangeOf_of_harmless h message network with ⟨reason, hblocked⟩ | hsent
    · rw [hblocked]
      exact .inl ⟨reason, rfl⟩
    · rw [hsent]
      exact .inr rfl

theorem deliverEmailEvent_raised {delivery : DeliveryEnv}
    (hconfigured : emailServiceConfigured delivery = true) (message : Text) :
    deliverEmailEvent delivery (.raised message) = .error message := by
  rw [deliverEmailEvent, if_neg (not_not.mpr hconfigured)]
  rfl

theorem emailReported_iff {delivery : DeliveryEnv}
    (hconfigured : emailServiceConfigured delivery = true)
    {result : Except ResolveError ResolvedWebhookEndpoint} :
    EmailReported env delivery result ↔ Harmless env result := by
  constructor
  · intro h
    by_contra hharm
    obtain ⟨error, hraised⟩ := exchangeOf_of_not_harmless hharm (fun _ => []) answering
      rfl
    have hsends : deliverEmailEvent delivery answering.outcome =
        .ok (true, succeededCall (some 200)) := by
      rw [deliverEmailEvent, if_neg (not_not.mpr hconfigured)]
      rfl
    rcases h (fun _ => []) answering with ⟨attempt, hattempt, -⟩ | hsame
    · rw [hraised, deliverEmailEvent_raised hconfigured] at hattempt
      cases hattempt
    · rw [hraised, deliverEmailEvent_raised hconfigured, hsends] at hsame
      cases hsame
  · intro h message network
    rcases exchangeOf_of_harmless h message network with ⟨reason, hblocked⟩ | hsent
    · rw [hblocked, deliverEmailEvent, if_neg (not_not.mpr hconfigured)]
      exact .inl ⟨_, rfl, rfl⟩
    · rw [hsent]
      exact .inr rfl

def ResolveReported (env : ResolverEnv) (url : Text) (allowPrivate : Bool) : Prop :=
  (∃ endpoint, resolveWebhookEndpoint env url allowPrivate = .ok endpoint) ∨
    ∃ message, resolveWebhookEndpoint env url allowPrivate = .error (.ssrf message)

theorem resolveReported_iff :
    ResolveReported env url allowPrivate ↔ Readable env url allowPrivate := by
  rw [ResolveReported, ← reported_iff, reported_resolve_iff]

/--
The resolution of a URL returns or raises the expected error exactly if the URL
is readable.  That `post_webhook_url` too raises nothing else because of the URL,
nor `deliver_email_event` because of that of the email service, holds exactly if
the request can be written down as well.
-/
theorem resolve_reported_iff (env : ResolverEnv) (delivery : DeliveryEnv) (allowPrivate : Bool) :
    (∀ url, ResolveReported env url allowPrivate ↔ Readable env url allowPrivate) ∧
    (∀ url, ResolveReported env url allowPrivate ∧
        PostReported env delivery (resolveWebhookEndpoint env url allowPrivate) ↔
      Usable env url allowPrivate) ∧
    (emailServiceConfigured delivery = true →
      ∀ setting, ResolveReported env (emailEventsUrl setting) allowPrivate ∧
          EmailReported env delivery
            (resolveWebhookEndpoint env (emailEventsUrl setting) allowPrivate) ↔
        Usable env (emailEventsUrl setting) allowPrivate) := by
  have hboth : ∀ {url : Text} {p : Prop},
      (p ↔ Harmless env (resolveWebhookEndpoint env url allowPrivate)) →
        (ResolveReported env url allowPrivate ∧ p ↔ Usable env url allowPrivate) := by
    intro url p hp
    rw [hp, harmless_resolve_iff, resolveReported_iff]
    exact and_iff_right_of_imp readable_of_usable
  refine ⟨fun url => resolveReported_iff, fun url => hboth postReported_iff, ?_⟩
  intro hconfigured setting
  exact hboth (emailReported_iff hconfigured)

end Reported

def blankUrl : Text := "http://1.1.1.1/a b".toList

/-- A bracket that is not closed, a port that is no number, a name without a code, and a path
that cannot be sent. -/
theorem not_reported :
    resolveWebhookEndpoint sampleResolver "http://[::1".toList false = .error .valueError ∧
      resolveWebhookEndpoint sampleResolver "http://example.com:99999/".toList false =
        .error .valueError ∧
      resolveWebhookEndpoint
          { sampleResolver with getaddrinfo := fun _ _ => .unicodeError }
          "http://a..b/".toList false = .error .unicodeError ∧
      (∃ endpoint, resolveWebhookEndpoint sampleResolver blankUrl false = .ok endpoint) ∧
      ¬PostReported sampleResolver sampleDelivery
        (resolveWebhookEndpoint sampleResolver blankUrl false) := by
  refine ⟨rfl, rfl, rfl, ⟨_, rfl⟩, fun h => ?_⟩
  rcases h (fun _ => []) answering with ⟨reason, hreason⟩ | hsame
  · cases hreason
  · cases hsame

theorem resolve_reported_iff_unknown :
    ResolveReported sampleResolver (emailEventsUrl []) false ∧
      EmailReported sampleResolver sampleDelivery
        (resolveWebhookEndpoint sampleResolver (emailEventsUrl []) false) := by
  have hconfigured : emailServiceConfigured sampleDelivery = true := by decide
  refine ((resolve_reported_iff sampleResolver sampleDelivery false).2.2 hconfigured []).mpr ?_
  refine ⟨_, rfl, .inr ⟨rfl, ?_⟩⟩
  intro port connectHost connectPort hport hconnects
  cases hconnects with
  | literal hparse => cases hparse
  | answer hparse hinfos => cases hinfos

end StorageService.Results
