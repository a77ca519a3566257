import Netsim.System.TelemetryHttpClient

/-!
# The URLs of endpoints

`parse_endpoint` cuts what follows the scheme at the first solidus, and the front of it at
the last colon. The colon is looked for in the brackets of an IPv6 literal too, so without
a port the last group of the literal is taken for one.
-/

namespace Netsim.System.TelemetryHttp

open Foundation Netsim.Protocols

def leftBracket : UInt8 := 91
def rightBracket : UInt8 := 93

/-- A host as it stands in a URL. Of an IPv6 literal only its colons matter. -/
inductive Host where
  | name (text : Bytes) (ne_nil : text ≠ []) (no_slash : slash ∉ text) (no_colon : colon ∉ text)
  | ipv6 (address : Bytes) (has_colon : colon ∈ address) (no_slash : slash ∉ address)

namespace Host

def text : Host → Bytes
  | .name text _ _ _ => text
  | .ipv6 address _ _ => leftBracket :: address ++ [rightBracket]

def Bracketed : Host → Prop
  | .name _ _ _ _ => False
  | .ipv6 _ _ _ => True

theorem slash_not_mem (host : Host) : slash ∉ host.text := by
  cases host with
  | name text _ no_slash _ => exact no_slash
  | ipv6 address _ no_slash =>
      rw [text, List.mem_append, List.mem_cons, List.mem_singleton]
      rintro ((h | h) | h)
      · exact absurd h (by decide)
      · exact no_slash h
      · exact absurd h (by decide)

theorem colon_mem_iff (host : Host) : colon ∈ host.text ↔ host.Bracketed := by
  cases host with
  | name text _ _ no_colon => exact iff_of_false no_colon id
  | ipv6 address has_colon _ =>
      refine iff_of_true ?_ trivial
      rw [text, List.mem_append]
      exact Or.inl (List.mem_cons_of_mem _ has_colon)

end Host

structure Port where
  digits : Bytes
  ne_nil : digits ≠ []
  all_digits : ∀ b ∈ digits, isDigit b = true

theorem Port.not_mem (port : Port) {b : UInt8} (hb : isDigit b = false) : b ∉ port.digits := by
  intro hmem
  rw [port.all_digits b hmem] at hb
  exact Bool.noConfusion hb

structure HttpUrl where
  host : Host
  port : Option Port
  /-- What follows the first solidus. -/
  path : Option Bytes

namespace HttpUrl

def hostPort (url : HttpUrl) : Bytes :=
  match url.port with
  | none => url.host.text
  | some port => url.host.text ++ colon :: port.digits

def text (url : HttpUrl) : Bytes :=
  httpScheme ++ match url.path with
    | none => url.hostPort
    | some path => url.hostPort ++ slash :: path

/-- The parts of the URL, with their defaults. -/
def endpoint (url : HttpUrl) : TelemetryEndpoint where
  host := url.host.text
  port := match url.port with
    | none => literal "80"
    | some port => port.digits
  path := match url.path with
    | none => [slash]
    | some path => slash :: path

theorem slash_not_mem (url : HttpUrl) : slash ∉ url.hostPort := by
  unfold hostPort
  cases url.port with
  | none => exact url.host.slash_not_mem
  | some port =>
      rw [List.mem_append, List.mem_cons]
      rintro (h | h | h)
      · exact url.host.slash_not_mem h
      · exact absurd h (by decide)
      · exact port.not_mem (by decide) h

/-- The path is split off at the first solidus. -/
theorem parseEndpoint_text (url : HttpUrl) : parseEndpoint url.text =
    match rfind url.hostPort colon with
    | none => .ok ⟨url.hostPort, literal "80", url.endpoint.path⟩
    | some portPos => .ok ⟨substr url.hostPort 0 (some portPos),
        substr url.hostPort (portPos + 1) none, url.endpoint.path⟩ := by
  have hscheme : httpScheme <+: url.text := List.prefix_append _ _
  unfold parseEndpoint
  rw [if_neg (not_not.mpr hscheme), text, substr_append_right, endpoint]
  cases url.path with
  | none =>
      dsimp only
      rw [find_eq_none_iff.mpr url.slash_not_mem]
      rfl
  | some path =>
      dsimp only
      rw [find_append_cons url.slash_not_mem]
      dsimp only
      rewrite [substr_append, substr_append_right]
      rfl

/-- A port given is found behind the last colon. -/
theorem parseEndpoint_port (url : HttpUrl) {port : Port} (hport : url.port = some port) :
    parseEndpoint url.text = .ok url.endpoint := by
  have hcolon : colon ∉ port.digits := port.not_mem (by decide)
  have hhostPort : url.hostPort = url.host.text ++ colon :: port.digits := by
    rw [hostPort, hport]
  have hdrop : substr (url.host.text ++ colon :: port.digits) (url.host.text.length + 1) none =
      port.digits := by
    have h := substr_append_right (url.host.text ++ [colon]) port.digits
    rwa [List.append_assoc, List.singleton_append, List.length_append, List.length_singleton] at h
  rw [parseEndpoint_text, hhostPort, rfind_append_cons hcolon]
  dsimp only
  rw [substr_append, hdrop, endpoint, hport]

theorem parseEndpoint_no_port_iff (url : HttpUrl) (hport : url.port = none) :
    parseEndpoint url.text = .ok url.endpoint ↔ ¬ url.host.Bracketed := by
  have hhostPort : url.hostPort = url.host.text := by rw [hostPort, hport]
  have hendpoint : url.endpoint = ⟨url.host.text, literal "80", url.endpoint.path⟩ := by
    simp only [endpoint, hport]
  rw [parseEndpoint_text, hhostPort]
  cases hpos : rfind url.host.text colon with
  | none =>
      have hcolon : colon ∉ url.host.text := rfind_eq_none_iff.mp hpos
      rw [hendpoint]
      exact iff_of_true rfl (fun h => hcolon (url.host.colon_mem_iff.mpr h))
  | some portPos =>
      have hcolon : colon ∈ url.host.text := by
        by_contra hnone
        rw [rfind_eq_none_iff.mpr hnone] at hpos
        cases hpos
      refine iff_of_false (fun heq => ?_) (not_not.mpr (url.host.colon_mem_iff.mp hcolon))
      -- the host found ends before the last colon
      have hhost : substr url.host.text 0 (some portPos) = url.host.text :=
        congrArg TelemetryEndpoint.host (Except.ok.inj heq)
      have hlen := congrArg List.length hhost
      have hlt := lt_of_rfind hpos
      rw [substr, List.drop_zero, List.length_take] at hlen
      omega

end HttpUrl

theorem parseEndpoint_error_iff (s : Bytes) :
    (∃ e, parseEndpoint s = .error e) ↔ ¬ httpScheme <+: s := by
  unfold parseEndpoint
  constructor
  · rintro ⟨e, he⟩ hscheme
    rw [if_neg (not_not.mpr hscheme)] at he
    dsimp only at he
    split at he <;> cases he
  · intro hscheme
    exact ⟨_, if_pos hscheme⟩

/-- **Which URLs are taken apart correctly.** Those with a port, and those whose host is no
bracketed literal. The strings without the scheme are rejected, and no others. -/
theorem parseEndpoint_url_iff (url : HttpUrl) (s : Bytes) :
    (parseEndpoint url.text = .ok url.endpoint ↔ ¬ url.host.Bracketed ∨ url.port.isSome) ∧
      ((∃ e, parseEndpoint s = .error e) ↔ ¬ httpScheme <+: s) := by
  refine ⟨?_, parseEndpoint_error_iff s⟩
  cases hport : url.port with
  | none => simpa using url.parseEndpoint_no_port_iff hport
  | some port => exact iff_of_true (url.parseEndpoint_port hport) (Or.inr rfl)

/-- `http://[::1]/` -/
def loopbackUrl : HttpUrl where
  host := .ipv6 [58, 58, 49] (by decide) (by decide)
  port := none
  path := some []

theorem not_parseEndpoint_url : parseEndpoint loopbackUrl.text ≠ .ok loopbackUrl.endpoint :=
  fun h => (loopbackUrl.parseEndpoint_no_port_iff rfl).mp h trivial

end Netsim.System.TelemetryHttp
