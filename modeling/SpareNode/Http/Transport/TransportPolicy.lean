import SpareNode.Foundation.NumericIpAddress
import SpareNode.Http.Request.HeadParser
import SpareNode.Network.TcpConnection

/-! # The transport policy

Who may speak to the server and what a trusted proxy must say about its client. The platform's
`inet_pton` reads the same texts as the repository's own parser of numeric addresses.
-/
namespace SpareNode.Http
open Network

inductive HttpTransportMode where
  | loopbackHttp | trustedLanHttp | trustedProxyHttps
deriving DecidableEq, Repr

structure HttpTransportPolicy where
  mode : HttpTransportMode := .loopbackHttp
  trustedProxy : Option Bytes := none
deriving DecidableEq, Repr

inductive HttpTransportErrorCode where
  | peerNotPermitted | missingForwardedScheme | duplicateForwardedScheme | insecureForwardedScheme
  | missingForwardedClient | duplicateForwardedClient | invalidForwardedClient
deriving DecidableEq, Repr

structure HttpRequestTransportContext where
  peerAddress : Bytes
  clientAddress : Bytes
  secure : Bool
  trustedProxy : Bool
deriving DecidableEq, Repr

/-- `INET6_ADDRSTRLEN - 1`. -/
def maximumAddressCharacters : ℕ := 45

def parseIpAddress (text : Bytes) : Option Ip.NumericAddress :=
  if text = [] ∨ maximumAddressCharacters < text.length ∨ (find 0 text).isSome then none
  else Ip.parseNumericAddress text

def isNumericSocketPeerAddress (text : Bytes) : Bool :=
  if (parseIpAddress text).isSome then true
  else
    match find (char '%') text with
    | none => false
    | some separator =>
      if separator = 0 ∨ separator + 1 = text.length ∨ (findFrom (char '%') text (separator + 1)).isSome
      then false
      else
        match parseIpAddress (text.take separator) with
        | none => false
        | some address =>
          if address.ipv4 then false
          else
            match fromChars 10 (2 ^ 32 - 1) (text.drop (separator + 1)) with
            | some (_,[]) => true
            | _ => false

def isLoopbackAddress (address : Bytes) : Bool :=
  match parseIpAddress address with
  | none => false
  | some parsed =>
    if parsed.ipv4 then parsed.bytes.head? = some 127
    else parsed.bytes = List.replicate 15 0 ++ [1]

def httpTransportAllowsPeer (policy : HttpTransportPolicy) (peer : TcpEndpoint) : Bool :=
  match policy.mode with
  | .loopbackHttp => isLoopbackAddress peer.address
  | .trustedLanHttp => isNumericSocketPeerAddress peer.address
  | .trustedProxyHttps =>
    match policy.trustedProxy with
    | none => false
    | some proxy =>
      match parseIpAddress peer.address, parseIpAddress proxy with
      | some parsedPeer, some parsedProxy => parsedPeer = parsedProxy
      | _, _ => false

/-- `HttpRequestView::headers`: the values of all fields with a name. -/
def headerValues (fields : List HttpHeaderView) (name : String) : List Bytes :=
  (fields.filter (isNamed name)).map HttpHeaderView.value

def resolveHttpTransport (policy : HttpTransportPolicy) (peer : TcpEndpoint)
    (fields : List HttpHeaderView) : Except HttpTransportErrorCode HttpRequestTransportContext :=
  if !httpTransportAllowsPeer policy peer then .error .peerNotPermitted
  else if policy.mode ≠ .trustedProxyHttps then .ok ⟨peer.address,peer.address,false,false⟩
  else
    match headerValues fields "X-Forwarded-Proto" with
    | [] => .error .missingForwardedScheme
    | [scheme] =>
      if !asciiCaseInsensitiveEqual scheme (ascii "https") then .error .insecureForwardedScheme
      else
        match headerValues fields "X-Forwarded-For" with
        | [] => .error .missingForwardedClient
        | [client] =>
          if (parseIpAddress client).isNone then .error .invalidForwardedClient
          else .ok ⟨peer.address,client,true,true⟩
        | _ => .error .duplicateForwardedClient
    | _ => .error .duplicateForwardedScheme

theorem resolveHttpTransport_allowed {policy : HttpTransportPolicy} {peer : TcpEndpoint}
    {fields : List HttpHeaderView} {context : HttpRequestTransportContext}
    (h : resolveHttpTransport policy peer fields = .ok context) :
    httpTransportAllowsPeer policy peer = true := by
  unfold resolveHttpTransport at h
  split at h
  · cases h
  · rename_i hallowed
    simpa using hallowed

end SpareNode.Http
