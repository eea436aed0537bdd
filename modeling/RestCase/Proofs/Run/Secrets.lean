/-
# RestCase.Proofs.Run.Secrets — what is shown of users and credentials tells no secrets

`User.description`, `describedCredentials` and `Environment.description` are what a log may show of
the users of a run.  Here `Environment.masked` turns every password, token and key that is given
into one and the same text, and the descriptions of what is masked are those of what is not
(`User.description_masked`, `describedCredentials_masked`).  So of two runs with users that differ
in their secrets alone nothing different is shown (`Environment.descriptions_of_masked`).

Which secrets are given is no secret: a user without a password has no credentials of the scheme
`basic`, and that is shown.  What the requests themselves carry is not spoken of here but in
`RestCase.Proofs.Run.Anonymity`.
-/
import RestCase.Proofs.Table.Listing
import RestCase.Run.Description

namespace RestCase

/-! ## Masking -/

/-- The text that stands for every secret. -/
def maskedSecret : String := "***"

/-- The credentials with the secret masked. -/
def Credentials.masked : Credentials → Credentials
  | basic username _ => basic username maskedSecret
  | bearer _ => bearer maskedSecret
  | apiKey header _ => apiKey header maskedSecret

/-- The user with every secret masked that is given. -/
def User.masked (u : User) : User :=
  { u with
    password := u.password.map fun _ => maskedSecret
    token := u.token.map fun _ => maskedSecret
    apiKey := u.apiKey.map fun _ => maskedSecret }

/-- The same environment, with the secrets of all users masked (`User.masked`). -/
def Environment.masked (env : Environment) : Environment :=
  { env with users := env.users.map fun _ u => u.masked }

/-! ## Descriptions of what is masked -/

theorem Credentials.description_masked (c : Credentials) :
    c.masked.description = c.description := by
  cases c <;> rfl

theorem User.description_masked (u : User) : u.masked.description = u.description := rfl

/-- A scheme takes from masked settings what it takes from the settings, and masks it: whether a
setting is given is the same. -/
theorem User.credentialsFor?_masked (u : User) (scheme : AuthScheme) :
    u.masked.credentialsFor? scheme = (u.credentialsFor? scheme).map Credentials.masked := by
  obtain ⟨authType, username, password, token, apiKey, apiKeyHeader⟩ := u
  cases scheme with
  | basic => cases username <;> cases password <;> rfl
  | bearer | jwt => cases token <;> rfl
  | apiKey => cases apiKeyHeader <;> cases apiKey <;> rfl

theorem User.credentials?_masked (u : User) :
    u.masked.credentials? = u.credentials?.map Credentials.masked := by
  unfold credentials?
  have hscheme : u.masked.authType = u.authType := rfl
  rw [hscheme]
  split
  · exact u.credentialsFor?_masked _
  · rfl

/-- The credentials of a user whose secrets are masked. -/
theorem credentialsOf?_masked (env : Environment) (id : String) :
    credentialsOf? env.masked.users id =
      (credentialsOf? env.users id).map Credentials.masked := by
  unfold credentialsOf? Environment.masked
  rw [Table.find?_map]
  cases env.users.find? id with
  | none => rfl
  | some u => exact u.credentials?_masked

theorem describedCredentials_masked (env : Environment) (id : String) :
    describedCredentials (credentialsOf? env.masked.users id) =
      describedCredentials (credentialsOf? env.users id) := by
  rw [credentialsOf?_masked]
  cases credentialsOf? env.users id with
  | none => rfl
  | some c => exact congrArg (fun s => "Some(" ++ s ++ ")") c.description_masked

/-- Of an environment the settings and the number of users are shown. -/
theorem Environment.description_masked (env : Environment) :
    env.masked.description = env.description := by
  have hsize : env.masked.users.size = env.users.size := List.length_map _
  unfold description
  rw [hsize]
  rfl

/-! ## Runs that differ in secrets alone -/

/-- **Descriptions tell no secrets.**  Where two environments differ in secrets alone
(`Environment.masked`), they have the same description, and so has every user and what the user
authenticates with (`credentialsOf?`). -/
theorem Environment.descriptions_of_masked {env env' : Environment} (h : env.masked = env'.masked) :
    env.description = env'.description ∧ ∀ id,
      (env.users.find? id).map User.description = (env'.users.find? id).map User.description ∧
        describedCredentials (credentialsOf? env.users id) =
          describedCredentials (credentialsOf? env'.users id) := by
  have huser (e : Environment) (id : String) :
      (e.masked.users.find? id).map User.description =
        (e.users.find? id).map User.description := by
    rw [Environment.masked, Table.find?_map, Option.map_map]
    rfl
  refine ⟨?_, fun id => ⟨?_, ?_⟩⟩
  · rw [← env.description_masked, h, env'.description_masked]
  · rw [← huser env id, h, huser env' id]
  · rw [← describedCredentials_masked env id, h, describedCredentials_masked env' id]

end RestCase
