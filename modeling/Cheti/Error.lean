import Cheti.Base.Prim
/-!
# `DnsError` (src/error.rs)

One constructor per variant, in the source's order. A payload that is a formatted message is a
`String`; the error of the HTTP client (`reqwest::Error`) is kept as its text.
-/

namespace Cheti

/-- Errors returned by the DNS provider layer (error.rs:10). -/
inductive DnsError where
  /-- The provider rejected the credentials, or lacks permission. -/
  | auth (msg : String)
  /-- No zone owning the name could be found. -/
  | zoneNotFound (name : Str)
  /-- The provider API answered with an error. -/
  | api (msg : String)
  /-- The HTTP request failed (connection, timeout, invalid response). -/
  | http (msg : String)
  /-- The TXT record did not become visible in time. -/
  | propagationTimeout (fqdn : Str) (timeoutSecs : Nat)
  | missingCredentials (msg : String)
  | resolver (msg : String)
  | acme (msg : String)
  | noDns01Challenge (domain : Str)
  | unexpectedOrderStatus (status : String)
  | challengeInvalid (status : String)
  | storage (msg : String)
  | certParse (msg : String)
  | other (msg : String)
deriving DecidableEq, Repr

end Cheti
