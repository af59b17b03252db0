import Modall.Library.Table
import Modall.Registry.Connections
import Modall.Security.Endpoints

/-!
# The two validators of an endpoint

`ConnectionService._validate_configuration` decides which endpoints are stored, and
`EndpointPolicy.validate` which of them are contacted. Both screen a canonical spelling of the
endpoint; the registry's has the port only if the endpoint has one, the policy's always.
-/
namespace Modall.McpAdapter

open Library Library.Text Security

/-! ## The registry's validator -/

/-- `port` in the text of a URL. -/
def portText (port : Nat) : Text := text ":" ++ text (toString port)

def isLocalhost (hostname : Text) : Bool :=
  hostname == text "localhost" || decide (text ".localhost" <:+ hostname)

/-- `local_fixture` of `_validate_configuration`. -/
def isLocalFixture (environment : String) (allowLoopbackHttp : Bool) (parsed : SplitResult)
    (host : NormalizedEndpointHost) : Bool :=
  (environment == "local" || environment == "test") && allowLoopbackHttp &&
    parsed.scheme == text "http" && (isLocalhost host.value || host.parsedIp.any (·.isLoopback))

/-- The conditions of `_validate_configuration` on the parts of the URL. -/
def partsRejected (parsed : SplitResult) (port : Option Nat) (host : NormalizedEndpointHost)
    (localFixture : Bool) : Bool :=
  parsed.scheme != text "https" && !localFixture || port == some 0 || host.value.isEmpty ||
    !localFixture && (isLocalhost host.value || host.isIpLiteral) ||
    parsed.username.isSome || parsed.password.isSome || !parsed.query.isEmpty ||
    !parsed.fragment.isEmpty || !localFixture && !(port == none || port == some 443)

/-- The screens that both validators make of a canonical endpoint and its parts. -/
def credentialShaped (canonicalEndpoint hostname decodedPath : Text) : Bool :=
  containsObviousSecret canonicalEndpoint || containsSensitiveHostname hostname ||
    containsSensitiveUrlPath decodedPath

/-- What `_validate_configuration` raises for the endpoint, once its characters are checked. -/
def endpointError (U : UrlPlatform) (environment : String) (allowLoopbackHttp : Bool)
    (endpointUrl : Text) (hasSecret : Bool) : Option String :=
  match U.urlsplit endpointUrl with
  | none => some "invalid endpoint URL"
  | some parsed =>
    match parsed.port with
    | none => some "invalid endpoint URL"
    | some port =>
      match normalizeEndpointHost U parsed.hostname with
      | none => some "invalid endpoint URL"
      | some host =>
        let localFixture := isLocalFixture environment allowLoopbackHttp parsed host
        if partsRejected parsed port host localFixture then some "invalid endpoint URL"
        else if localFixture && hasSecret then some "credentials require an HTTPS endpoint"
        else
          match decodeSafeUrlPath parsed.path with
          | none => some "invalid endpoint URL"
          | some decodedPath =>
            let canonicalEndpoint := parsed.scheme ++ text "://" ++ host.value ++
              (port.map portText).getD [] ++ decodedPath
            if (encode canonicalEndpoint).isNone then some "invalid endpoint URL"
            else if credentialShaped canonicalEndpoint host.value decodedPath then
              some "endpoint URL contains credential-shaped content"
            else none

/-- `[A-Za-z0-9][A-Za-z0-9._-]{0,63}\Z`. -/
def isPolicyVersion : Text → Bool
  | [] => false
  | c :: rest =>
    isAsciiAlnum c && decide (rest.length ≤ 63) && rest.all fun c => isAsciiAlnum c || among "._-" c

/-- `_validate_configuration`. -/
def validateConfiguration (U : UrlPlatform) (environment : String) (allowLoopbackHttp : Bool)
    (endpointUrl policyVersion : Text) (hasSecret : Bool) : Except String Unit :=
  if endpointUrl = [] ∨ 2048 < endpointUrl.length ∨
      (endpointUrl.any fun c => decide (c ≤ 32) || c == 127) = true then
    .error "invalid endpoint URL"
  else
    match endpointError U environment allowLoopbackHttp endpointUrl hasSecret with
    | some message => .error message
    | none => if isPolicyVersion policyVersion then .ok () else .error "invalid policy version"

/-! ## The policy's validator -/

inductive EndpointFailure where
  | policyError (message : String)
  | resolutionError (message : String)
deriving DecidableEq

structure EndpointResolution where
  host : Text
  port : Nat
  addresses : List Text
deriving DecidableEq

/-- What `EndpointPolicy` is given: its environment and the resolver, which may raise. -/
structure EndpointPolicy where
  environment : String
  allowLoopbackHttp : Bool
  resolver : Text → Nat → Option (List Text)

/-- The address may not be contacted over HTTPS. -/
def isForbidden (address : IpAddress) : Bool :=
  !address.isGlobal || address.isMulticast || address.isLoopback || address.isLinkLocal ||
    address.isPrivate || address.isReserved || address.isUnspecified

/-- The port that is contacted. -/
def effectivePort (scheme : Text) (port : Option Nat) : Nat :=
  match port with
  | some port => port
  | none => if scheme = text "https" then 443 else 80

/-- What the policy contacts: the host, the port and the decoded path. -/
def screenEndpoint (U : UrlPlatform) (parsed : SplitResult) (port : Nat) :
    Except EndpointFailure Text := do
  let rejected := EndpointFailure.policyError "endpoint rejected"
  if (parsed.hostname.getD []).isEmpty || parsed.username.isSome || parsed.password.isSome ||
      !parsed.query.isEmpty || !parsed.fragment.isEmpty ||
      !(parsed.scheme == text "http" || parsed.scheme == text "https") || port == 0 then
    throw rejected
  match normalizeEndpointHost U parsed.hostname with
  | none => throw rejected
  | some host =>
    match decodeSafeUrlPath parsed.path with
    | none => throw rejected
    | some decodedPath =>
      let canonicalEndpoint :=
        parsed.scheme ++ text "://" ++ host.value ++ portText port ++ decodedPath
      if credentialShaped canonicalEndpoint host.value decodedPath then throw rejected
      return host.value

/-- `EndpointPolicy.validate`. -/
def EndpointPolicy.validate (policy : EndpointPolicy) (U : UrlPlatform) (endpoint : Text) :
    Except EndpointFailure EndpointResolution :=
  match (U.urlsplit endpoint).bind fun parsed => parsed.port.map fun port => (parsed, port) with
  | none => .error (.policyError "endpoint rejected")
  | some (parsed, parsedPort) => do
    let port := effectivePort parsed.scheme parsedPort
    let host ← screenEndpoint U parsed port
    match policy.resolver host port with
    | none => throw (.resolutionError "endpoint resolution failed")
    | some addresses =>
      if addresses = [] then throw (.policyError "endpoint resolution failed")
      match addresses.mapM U.ipAddress with
      | none => throw (.policyError "endpoint resolution failed")
      | some parsedAddresses =>
        let resolution := ⟨host, port, orderedBy (· ≤ ·) addresses⟩
        if parsed.scheme == text "http" &&
            (policy.environment == "local" || policy.environment == "test") &&
            policy.allowLoopbackHttp && parsedAddresses.all (·.isLoopback) then
          return resolution
        if parsed.scheme != text "https" || parsedAddresses.any isForbidden then
          throw (.policyError "endpoint rejected")
        return resolution

/-! ## Where they agree -/

/-- The endpoint has no port of its own, and `:443` behind its host makes it look like a secret. -/
def portMakesSecret (U : UrlPlatform) (endpoint : Text) : Bool :=
  match U.urlsplit endpoint with
  | none => false
  | some parsed =>
    match normalizeEndpointHost U parsed.hostname, decodeSafeUrlPath parsed.path with
    | some host, some decodedPath =>
      parsed.port == some none &&
        containsObviousSecret (text "https://" ++ host.value ++ text ":443" ++ decodedPath)
    | _, _ => false

/-- An endpoint that production stores, by its parts. -/
structure Stored (U : UrlPlatform) (endpoint : Text) (parsed : SplitResult) (port : Option Nat)
    (host : NormalizedEndpointHost) (decodedPath : Text) : Prop where
  urlsplit_eq : U.urlsplit endpoint = some parsed
  port_eq : parsed.port = some port
  host_eq : normalizeEndpointHost U parsed.hostname = some host
  path_eq : decodeSafeUrlPath parsed.path = some decodedPath
  scheme : parsed.scheme = text "https"
  username : parsed.username = none
  password : parsed.password = none
  query : parsed.query = []
  fragment : parsed.fragment = []
  portAllowed : port = none ∨ port = some 443
  clean : credentialShaped (parsed.scheme ++ text "://" ++ host.value ++
    (port.map portText).getD [] ++ decodedPath) host.value decodedPath = false

/-- What `_validate_configuration` accepts in production. -/
lemma stored_of_accepted {U : UrlPlatform} {allowLoopbackHttp hasSecret : Bool}
    {endpoint policyVersion : Text}
    (h : validateConfiguration U "production" allowLoopbackHttp endpoint policyVersion hasSecret =
      .ok ()) :
    ∃ parsed port host decodedPath, Stored U endpoint parsed port host decodedPath := by
  have herror : endpointError U "production" allowLoopbackHttp endpoint hasSecret = none := by
    rw [validateConfiguration] at h
    split at h
    · cases h
    split at h
    · cases h
    case h_2 hnone => exact hnone
  rw [endpointError] at herror
  split at herror
  · cases herror
  case h_2 parsed hsplit =>
    split at herror
    · cases herror
    case h_2 port hport =>
      split at herror
      · cases herror
      case h_2 host hhost =>
        have hfixture : isLocalFixture "production" allowLoopbackHttp parsed host = false := rfl
        simp only [hfixture, Bool.false_and, Bool.false_eq_true, if_false] at herror
        split at herror
        · cases herror
        case isFalse hparts =>
          split at herror
          · cases herror
          case h_2 decodedPath hpath =>
            split at herror
            · cases herror
            split at herror
            · cases herror
            case isFalse hclean =>
              simp only [partsRejected, Bool.not_false, Bool.and_true, Bool.true_and,
                Bool.or_eq_true, not_or, bne_iff_ne, ne_eq, not_not, Bool.not_eq_true,
                Option.isSome_eq_false_iff, Option.isNone_iff_eq_none, Bool.not_eq_false',
                List.isEmpty_iff, beq_iff_eq] at hparts
              refine ⟨parsed, port, host, decodedPath, hsplit, hport, hhost, hpath, ?_, ?_, ?_, ?_,
                ?_, ?_, by simpa using hclean⟩
              all_goals grind

/-- A host that is normalized was there. -/
lemma hostname_of_normalized {U : UrlPlatform} {hostname : Option Text}
    {host : NormalizedEndpointHost} (h : normalizeEndpointHost U hostname = some host) :
    (hostname.getD []).isEmpty = false := by
  match hostname with
  | none => simp [normalizeEndpointHost] at h
  | some [] => simp [normalizeEndpointHost] at h
  | some (c :: rest) => rfl

/-- The resolver answers with addresses, all of them global unicast addresses. -/
def EndpointPolicy.ResolvesGlobally (policy : EndpointPolicy) (U : UrlPlatform) (host : Text)
    (port : Nat) : Prop :=
  ∃ addresses parsedAddresses, policy.resolver host port = some addresses ∧ addresses ≠ [] ∧
    addresses.mapM U.ipAddress = some parsedAddresses ∧
    ∀ address ∈ parsedAddresses, isForbidden address = false

section stored
variable {U : UrlPlatform} {endpoint : Text} {parsed : SplitResult} {port : Option Nat}
  {host : NormalizedEndpointHost} {decodedPath : Text}

/-- Both contact port 443. -/
lemma Stored.effectivePort_eq (h : Stored U endpoint parsed port host decodedPath) :
    effectivePort parsed.scheme port = 443 := by
  obtain rfl | rfl := h.portAllowed
  · simp [effectivePort, h.scheme]
  · rfl

/-- With the port in its canonical spelling, the only screen left is that of the whole text. -/
lemma Stored.screenEndpoint_eq (h : Stored U endpoint parsed port host decodedPath) :
    screenEndpoint U parsed 443 =
      if containsObviousSecret (text "https://" ++ host.value ++ text ":443" ++ decodedPath) then
        .error (.policyError "endpoint rejected")
      else .ok host.value := by
  have hclean := h.clean
  simp only [credentialShaped, Bool.or_eq_false_iff] at hclean
  have hcanonical : credentialShaped (text "https" ++ text "://" ++ host.value ++ portText 443 ++
      decodedPath) host.value decodedPath =
      containsObviousSecret (text "https://" ++ host.value ++ text ":443" ++ decodedPath) := by
    rw [credentialShaped, hclean.1.2, hclean.2, Bool.or_false, Bool.or_false]
    rfl
  simp only [screenEndpoint, hostname_of_normalized h.host_eq, h.username, h.password, h.query,
    h.fragment, h.scheme, h.host_eq, h.path_eq, hcanonical]
  rfl

/-- With a resolver that answers well, the policy accepts what its screens accept. -/
lemma Stored.validate_isOk (h : Stored U endpoint parsed port host decodedPath)
    {policy : EndpointPolicy} (hresolves : policy.ResolvesGlobally U host.value 443) :
    (policy.validate U endpoint).isOk =
      !containsObviousSecret (text "https://" ++ host.value ++ text ":443" ++ decodedPath) := by
  obtain ⟨addresses, parsedAddresses, hresolver, hsome, hparsed, hglobal⟩ := hresolves
  have hpermitted : parsedAddresses.any isForbidden = false := by
    rw [List.any_eq_false]
    exact fun address haddress => by simp [hglobal address haddress]
  have hscheme : (parsed.scheme == text "http") = false := by
    rw [h.scheme]
    rfl
  have hhttps : (parsed.scheme != text "https") = false := by
    rw [h.scheme]
    rfl
  rw [EndpointPolicy.validate, h.urlsplit_eq]
  simp only [Option.bind_some, h.port_eq, Option.map_some, h.effectivePort_eq, h.screenEndpoint_eq]
  split
  case isTrue hsecret =>
    rw [hsecret]
    rfl
  case isFalse hclear =>
    rw [Bool.not_eq_true] at hclear
    rw [hclear]
    simp only [bind, Except.bind, hresolver, hsome, if_false, hparsed, hscheme, hhttps, hpermitted,
      Bool.false_and, Bool.or_false, Bool.false_eq_true]
    rfl

lemma Stored.portMakesSecret_eq (h : Stored U endpoint parsed port host decodedPath) :
    portMakesSecret U endpoint = (port == none &&
      containsObviousSecret (text "https://" ++ host.value ++ text ":443" ++ decodedPath)) := by
  simp only [portMakesSecret, h.urlsplit_eq, h.host_eq, h.path_eq, h.port_eq]
  cases port <;> rfl

/-- An endpoint with its port spelled out has been screened with it. -/
lemma Stored.clean_of_port (h : Stored U endpoint parsed (some 443) host decodedPath) :
    containsObviousSecret (text "https://" ++ host.value ++ text ":443" ++ decodedPath) =
      false := by
  have hclean := h.clean
  rw [h.scheme] at hclean
  simp only [credentialShaped, Bool.or_eq_false_iff] at hclean
  exact hclean.1.1

end stored

/-- What production stores, production contacts, unless the port that the endpoint leaves out makes
it look like a secret. -/
theorem stored_endpoint_contacted_iff (U : UrlPlatform) (policy : EndpointPolicy)
    {allowLoopbackHttp hasSecret : Bool} {endpoint policyVersion : Text}
    (haccepted : validateConfiguration U "production" allowLoopbackHttp endpoint policyVersion
      hasSecret = .ok ())
    (hresolves : ∀ parsed host, U.urlsplit endpoint = some parsed →
      normalizeEndpointHost U parsed.hostname = some host →
      policy.ResolvesGlobally U host.value 443) :
    (policy.validate U endpoint).isOk = true ↔ portMakesSecret U endpoint = false := by
  obtain ⟨parsed, port, host, decodedPath, hstored⟩ := stored_of_accepted haccepted
  rw [hstored.validate_isOk (hresolves parsed host hstored.urlsplit_eq hstored.host_eq),
    hstored.portMakesSecret_eq]
  obtain rfl | rfl := hstored.portAllowed
  · simp
  · rw [hstored.clean_of_port]
    simp

namespace Sample

/-- The standard library on two endpoints and one address. -/
def urls : UrlPlatform where
  lower := Text.lower
  urlsplit endpoint :=
    let parts (host path : String) : SplitResult :=
      ⟨text "https", none, none, some (text host), some none, text path, [], []⟩
    if endpoint = text "https://token/abcdefghijk" then some (parts "token" "/abcdefghijk")
    else if endpoint = text "https://mcp.acme.org/tools" then some (parts "mcp.acme.org" "/tools")
    else none
  ipAddress address :=
    if address = text "93.184.216.34" then
      some ⟨address, true, false, false, false, false, false, false⟩
    else none
  idnaEncode := some
  inetAton _ := false

def production : EndpointPolicy := ⟨"production", false, fun _ _ => some [text "93.184.216.34"]⟩

lemma production_resolves (host : Text) (port : Nat) :
    production.ResolvesGlobally urls host port :=
  ⟨_, _, rfl, by decide, rfl, by decide⟩

end Sample

/-- The host `token` is harmless in front of a short path, and not in front of `:443` and that
path. -/
theorem stored_endpoint_rejected :
    validateConfiguration Sample.urls "production" false (text "https://token/abcdefghijk")
        (text "1") false = .ok () ∧
      (∀ host port, Sample.production.ResolvesGlobally Sample.urls host port) ∧
      Sample.production.validate Sample.urls (text "https://token/abcdefghijk") =
        .error (.policyError "endpoint rejected") := by
  refine ⟨by decide +kernel, Sample.production_resolves, by decide +kernel⟩

/-- An endpoint that is stored and contacted. -/
theorem stored_endpoint_contacted :
    (Sample.production.validate Sample.urls (text "https://mcp.acme.org/tools")).isOk = true := by
  have haccepted : validateConfiguration Sample.urls "production" false
      (text "https://mcp.acme.org/tools") (text "1") false = .ok () := by decide +kernel
  refine (stored_endpoint_contacted_iff Sample.urls Sample.production haccepted
    fun _ host _ _ => Sample.production_resolves host.value 443).mpr ?_
  decide +kernel

end Modall.McpAdapter
