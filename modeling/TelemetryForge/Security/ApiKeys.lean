import TelemetryForge.Foundation.Result
import TelemetryForge.Foundation.Strings

/-! # API keys

The checks that `LoadAPIKeys` makes on a decoded key document. -/

namespace TelemetryForge.Security

structure KeyEntry where
  name : Bytes
  sha256 : Bytes
  tenantID : Bytes
  scopes : List Bytes
deriving DecidableEq

structure KeyDocument where
  keys : List KeyEntry
deriving DecidableEq

inductive Scope
  | ingest
  | read
  | admin
  | control
deriving DecidableEq

def parseScope (text : Bytes) : Option Scope :=
  let scope := trimSpace text
  if scope = ascii "ingest" then some .ingest
  else if scope = ascii "read" then some .read
  else if scope = ascii "admin" then some .admin
  else if scope = ascii "control" then some .control
  else none

structure Principal where
  name : Bytes
  tenantID : Bytes
  scopes : List Scope
deriving DecidableEq

structure Credential where
  hash : Bytes
  principal : Principal
deriving DecidableEq

inductive LoadError
  | noKeys
  | missingName (index : Nat)
  | invalidDigest (index : Nat)
  | duplicateDigest (index : Nat)
  | unsupportedScope (index : Nat) (scope : Bytes)
  | missingScope (index : Nat)
deriving DecidableEq

def loadScopes (index : Nat) : List Bytes → List Scope → Except LoadError (List Scope)
  | [], loaded => .ok loaded
  | text :: rest, loaded =>
    match parseScope text with
    | none => .error (.unsupportedScope index (trimSpace text))
    | some scope => loadScopes index rest (if scope ∈ loaded then loaded else loaded ++ [scope])

def loadEntry (index : Nat) (seen : List Credential) (entry : KeyEntry) :
    Except LoadError Credential :=
  let name := trimSpace entry.name
  let tenantID := trimSpace entry.tenantID
  if name = [] ∨ tenantID = [] then .error (.missingName index)
  else
    match hexDecode (trimSpace entry.sha256) with
    | none => .error (.invalidDigest index)
    | some digest =>
      if digest.length ≠ 32 then .error (.invalidDigest index)
      else if digest ∈ seen.map Credential.hash then .error (.duplicateDigest index)
      else do
        let scopes ← loadScopes index entry.scopes []
        if scopes = [] then .error (.missingScope index)
        else .ok ⟨digest, name, tenantID, scopes⟩

def loadEntries (index : Nat) (loaded : List Credential) :
    List KeyEntry → Except LoadError (List Credential)
  | [] => .ok loaded
  | entry :: rest => do
    let credential ← loadEntry index loaded entry
    loadEntries (index + 1) (loaded ++ [credential]) rest

def loadKeys (document : KeyDocument) : Except LoadError (List Credential) :=
  if document.keys = [] then .error .noKeys else loadEntries 0 [] document.keys

def tenants (credentials : List Credential) : List Bytes :=
  credentials.map fun credential => credential.principal.tenantID

def Trimmed (tenantID : Bytes) : Prop := trimSpace tenantID = tenantID ∧ tenantID ≠ []

theorem loadEntry_trimmed {index : Nat} {seen : List Credential} {entry : KeyEntry}
    {credential : Credential} (loaded : loadEntry index seen entry = .ok credential) :
    Trimmed credential.principal.tenantID := by
  simp only [loadEntry, ite_error_eq_ok, not_or] at loaded
  rcases loaded with ⟨⟨_, nonblank⟩, loaded⟩
  split at loaded
  · cases loaded
  · simp only [ite_error_eq_ok] at loaded
    rcases bind_eq_ok.mp loaded.2.2 with ⟨scopes, _, made⟩
    simp only [ite_error_eq_ok, Except.ok.injEq] at made
    rw [← made.2]
    exact ⟨trimSpace_trimSpace _, nonblank⟩

theorem loadEntries_trimmed {index : Nat} {entries : List KeyEntry}
    {before credentials : List Credential}
    (loaded : loadEntries index before entries = .ok credentials)
    (trimmed : ∀ tenantID ∈ tenants before, Trimmed tenantID) :
    ∀ tenantID ∈ tenants credentials, Trimmed tenantID := by
  induction entries generalizing index before with
  | nil =>
    obtain rfl : before = credentials := by simpa [loadEntries] using loaded
    exact trimmed
  | cons entry rest induction =>
    rcases bind_eq_ok.mp loaded with ⟨credential, first, others⟩
    apply induction others
    intro tenantID member
    simp only [tenants, List.map_append, List.mem_append, List.map_cons, List.map_nil,
      List.mem_singleton] at member
    rcases member with member | rfl
    · exact trimmed tenantID member
    · exact loadEntry_trimmed first

theorem loadKeys_trimmed {document : KeyDocument} {credentials : List Credential}
    (loaded : loadKeys document = .ok credentials) :
    ∀ tenantID ∈ tenants credentials, Trimmed tenantID := by
  rw [loadKeys, ite_error_eq_ok] at loaded
  exact loadEntries_trimmed loaded.2 (by simp [tenants])

end TelemetryForge.Security
