import Coap.Session.Basic

/-! Authentication of the peer by the credential in its request's query. -/
namespace Coap.Session.Action

variable {κ ω : Type}

/-- Presents a credential. Refusal ends the identity that the peer had. -/
def present (h : Host ω) (q : Query) (tokenType token : String) : Action κ ω Unit := do
  emit [.presented tokenType token]
  if ← call (h.authenticate tokenType token) then
    modifySession fun s =>
      { s with auth := { authenticated := true, identity := some ⟨tokenType, token, q.indexes⟩ } }
    note (.credentialAccepted tokenType)
  else
    note (.credentialRejected tokenType)
    modifySession fun s => { s with auth := {} }
    throw ⟨.unauthenticated, .authenticating⟩

/-- A peer that has authenticated is not asked again unless that is forced. One that presents no
credential passes only where none is required. -/
def ensureAuthentication (h : Host ω) (m : Message) (force : Bool) : Action κ ω Unit := do
  if !force && (← session).isAuthenticated then return
  match Query.ofMessage m with
  | .error cause => throw ⟨.invalidQuery cause, .authenticating⟩
  | .ok q =>
    match q.credentials? with
    | some (tokenType, token) => present h q tokenType token
    | none =>
      if h.credentialsRequired then
        note (.noCredentials m)
        throw ⟨.unauthenticated, .authenticating⟩

end Coap.Session.Action
