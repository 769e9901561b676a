import CsuDbms.CatalogFileModel
import CsuDbms.ListTraversal

/-!
# The catalog in memory and in its file

Saving and loading are inverse, so the two agree as long as every change of the
memory is saved. An operation that stops before it saves must then not have
changed anything, and `create_user` does if the password is refused.
-/

namespace CsuDbms.CatalogFileModel

open ListTraversal TransitionSystem List Option
open SystemCatalogModel (validIdentifier rootName)

theorem appended_elements (key : String) (items : List Json) (rest : List (String × Json))
    (absent : rest.lookup key = none) :
    (((Json.appended key items ++ rest).lookup key).getD .null).elements = items := by
  unfold Json.appended
  cases items with
  | nil => simp [absent, Json.elements]
  | cons item items => simp [Json.elements]

theorem appended_lookup_other {key other : String} (items : List Json)
    (rest : List (String × Json)) (different : key ≠ other) :
    (Json.appended other items ++ rest).lookup key = rest.lookup key := by
  unfold Json.appended
  cases items with
  | nil => rfl
  | cons item items =>
    have other_key : (key == other) = false := beq_eq_false_iff_ne.mpr different
    simp [lookup_cons, other_key]

theorem load_user_json (user : UserRecord) : loadUser (userJson user) = some user := rfl

theorem load_strings (items : List String) :
    (items.map Json.string).mapM Json.asString = some items := by
  exact map_m_of_inverse fun _ _ => rfl

theorem load_grant_json (grant : PrivilegeGrant) : loadGrant (grantJson grant) = some grant := by
  have privileges : ((grantJson grant).member "privileges").elements
      = grant.privileges.map .string := by
    simpa [grantJson, Json.member, lookup_cons] using
      appended_elements "privileges" (grant.privileges.map .string) [] rfl
  simp only [loadGrant, privileges, load_strings]
  rfl

theorem catalog_users_elements (catalog : Catalog) :
    ((catalogJson catalog).member "users").elements = catalog.users.map userJson := by
  have later : (Json.appended "databases" (catalog.databases.map .string) ++
      Json.appended "grants" (catalog.grants.map grantJson)).lookup "users" = none := by
    rw [appended_lookup_other _ _ (by decide), ← append_nil (Json.appended _ _),
      appended_lookup_other _ _ (by decide)]
    rfl
  simpa [catalogJson, Json.member, lookup_cons] using appended_elements _ _ _ later

theorem catalog_databases_elements (catalog : Catalog) :
    ((catalogJson catalog).member "databases").elements = catalog.databases.map .string := by
  have later : (Json.appended "grants" (catalog.grants.map grantJson)).lookup "databases"
      = none := by
    rw [← append_nil (Json.appended _ _), appended_lookup_other _ _ (by decide)]
    rfl
  have read := appended_elements "databases" (catalog.databases.map .string) _ later
  rw [← appended_lookup_other (catalog.users.map userJson) _
    (by decide : "databases" ≠ "users")] at read
  simpa [catalogJson, Json.member, lookup_cons] using read

theorem catalog_grants_elements (catalog : Catalog) :
    ((catalogJson catalog).member "grants").elements = catalog.grants.map grantJson := by
  have read := appended_elements "grants" (catalog.grants.map grantJson) [] rfl
  rw [← appended_lookup_other (catalog.databases.map .string) _
    (by decide : "grants" ≠ "databases"), ← appended_lookup_other (catalog.users.map userJson) _
    (by decide : "grants" ≠ "users")] at read
  simpa [catalogJson, Json.member, lookup_cons] using read

theorem load_catalog_json (catalog : Catalog) :
    loadUnlocked (catalogJson catalog)
      = some (if catalog.users.isEmpty then .jsonMemberMissing else .success, catalog) := by
  have next_id : (catalogJson catalog).uintOr "next_user_id" 1 = some catalog.nextUserId := rfl
  simp only [loadUnlocked, next_id, catalog_users_elements, catalog_databases_elements,
    catalog_grants_elements, load_strings,
    map_m_of_inverse (fun user (_ : user ∈ catalog.users) => load_user_json user),
    map_m_of_inverse (fun grant (_ : grant ∈ catalog.grants) => load_grant_json grant)]
  rfl

def HasRoot (catalog : Catalog) : Prop := ∃ user ∈ catalog.users, user.username = rootName

/-- Every save that has something new to write succeeds, and the password of a new user can be
set. -/
def Careful (store : Store) : Action → Prop
  | .reopen => True
  | .call call saves =>
    (∀ catalog, outcome store.memory call = .save catalog →
      saves = true ∨ catalog = store.memory) ∧
      match call with
      | .createUser username password derived =>
        validIdentifier username = true → store.memory.hasUser username = false →
          8 ≤ password.utf8ByteSize ∧ password.utf8ByteSize ≤ 1024 ∧ derived.isSome = true
      | _ => True

variable {catalog : Catalog}

theorem has_root_saved (root : HasRoot catalog) :
    loadUnlocked (catalogJson catalog) = some (.success, catalog) := by
  obtain ⟨user, present, _⟩ := root
  have some_user : catalog.users.isEmpty = false := by
    rw [isEmpty_eq_false_iff_exists_mem]
    exact ⟨user, present⟩
  rw [load_catalog_json, some_user]
  rfl

variable {password : String} {derived : Derived}

theorem set_password_ok (user : UserRecord)
    (long : 8 ≤ password.utf8ByteSize) (short : password.utf8ByteSize ≤ 1024)
    (available : derived.isSome = true) :
    ∃ changed, setPassword user password derived = .ok changed := by
  obtain ⟨keys, rfl⟩ := isSome_iff_exists.mp available
  have fits : ¬ (password.utf8ByteSize < 8 ∨ 1024 < password.utf8ByteSize) := by omega
  exact ⟨_, if_neg fits⟩

theorem set_password_username {user changed : UserRecord}
    (done : setPassword user password derived = .ok changed) :
    changed.username = user.username := by
  unfold setPassword at done
  split at done
  · cases done
  · split at done
    · cases done
    · cases done
      rfl

variable {username : String}

theorem update_user_has_root {users : List UserRecord} {changed : UserRecord}
    (named : changed.username = username) (root : ∃ user ∈ users, user.username = rootName) :
    ∃ user ∈ Catalog.updateUser username (fun _ => changed) users, user.username = rootName := by
  obtain ⟨user, present, is_root⟩ := root
  fun_induction Catalog.updateUser username (fun _ => changed) users with
  | case1 => cases present
  | case2 first rest same =>
    rcases mem_cons.mp present with rfl | later
    · exact ⟨changed, by simp, named.trans (same.symm.trans is_root)⟩
    · exact ⟨user, by simp [later], is_root⟩
  | case3 first rest _ ih =>
    rcases mem_cons.mp present with rfl | later
    · exact ⟨user, by simp, is_root⟩
    · obtain ⟨found, listed, found_root⟩ := ih later
      exact ⟨found, by simp [listed], found_root⟩

def Outcome.Keeps (before : Catalog) : Outcome → Prop
  | .stop _ catalog => catalog = before
  | .save catalog => HasRoot catalog

section

variable (root : HasRoot catalog)
include root

theorem create_user_keeps
    (settable : validIdentifier username = true → catalog.hasUser username = false →
      8 ≤ password.utf8ByteSize ∧ password.utf8ByteSize ≤ 1024 ∧ derived.isSome = true) :
    (catalog.createUser username password derived).Keeps catalog := by
  unfold Catalog.createUser
  by_cases valid : validIdentifier username = true
  · by_cases taken : catalog.hasUser username = true
    · simp only [valid, taken, Bool.not_true, Bool.false_eq_true, if_true, if_false]
      rfl
    · have free : catalog.hasUser username = false := Bool.eq_false_iff.mpr taken
      obtain ⟨long, short, available⟩ := settable valid free
      obtain ⟨user, set⟩ := set_password_ok ⟨catalog.nextUserId, username, "", "", 210000⟩
        long short available
      simp only [valid, free, set, Bool.not_true, Bool.false_eq_true, if_false]
      obtain ⟨found, present, is_root⟩ := root
      exact ⟨found, mem_append_left _ present, is_root⟩
  · have invalid : validIdentifier username = false := Bool.eq_false_iff.mpr valid
    simp only [invalid, Bool.not_false, if_true]
    rfl

theorem alter_user_keeps : (catalog.alterUser username password derived).Keeps catalog := by
  unfold Catalog.alterUser
  cases found : catalog.users.find? fun user => user.username = username with
  | none => rfl
  | some user =>
    have named : user.username = username := by
      simpa using find?_some found
    cases set : setPassword user password derived with
    | error rc => simp [set, Outcome.Keeps]
    | ok changed =>
      simp only [set]
      exact update_user_has_root ((set_password_username set).trans named) root

theorem drop_user_keeps :
    (catalog.dropUser username).Keeps catalog := by
  unfold Catalog.dropUser
  split
  · rfl
  next not_root =>
    split
    · rfl
    · obtain ⟨user, present, is_root⟩ := root
      refine ⟨user, mem_filter.mpr ⟨present, ?_⟩, is_root⟩
      simpa [is_root] using Ne.symm not_root

theorem add_database_keeps {database : String} :
    (catalog.addDatabase database).Keeps catalog := by
  unfold Catalog.addDatabase
  split
  · rfl
  · split
    · rfl
    · exact root

theorem remove_database_keeps {database : String} :
    (catalog.removeDatabase database).Keeps catalog := by
  unfold Catalog.removeDatabase
  split
  · rfl
  · split
    · rfl
    · exact root

theorem grant_keeps {input : PrivilegeGrant} :
    (catalog.grant input).Keeps catalog := by
  unfold Catalog.grant
  split
  · rfl
  · exact root

end

theorem careful_outcome_keeps {store : Store} {call : Call} {saves : Bool}
    (root : HasRoot store.memory) (met : Careful store (.call call saves)) :
    (outcome store.memory call).Keeps store.memory := by
  cases call with
  | createUser username password derived => exact create_user_keeps root met.2
  | alterUser username password derived => exact alter_user_keeps root
  | dropUser username => exact drop_user_keeps root
  | addDatabase database => exact add_database_keeps root
  | removeDatabase database => exact remove_database_keeps root
  | grant input => exact grant_keeps root
  | revoke input => exact root

theorem careful_call {store : Store} {call : Call} {saves : Bool}
    (root : HasRoot store.memory) (sync : InSync store) (met : Careful store (.call call saves)) :
    HasRoot (perform store call saves).2.memory ∧ InSync (perform store call saves).2 ∧
      ((perform store call saves).1 ≠ .success → (perform store call saves).2 = store) := by
  have keeps := careful_outcome_keeps root met
  unfold perform
  cases ended : outcome store.memory call with
  | stop rc catalog =>
    rw [ended] at keeps
    obtain rfl : catalog = store.memory := keeps
    exact ⟨root, sync, fun _ => rfl⟩
  | save catalog =>
    rw [ended] at keeps
    cases saved : saves with
    | true => exact ⟨keeps, has_root_saved keeps, fun failed => absurd rfl failed⟩
    | false =>
      obtain rfl : catalog = store.memory := (met.1 catalog ended).resolve_left (by simp [saved])
      exact ⟨root, sync, fun _ => rfl⟩

theorem careful_run_keeps {saltHex hashHex : String} {last : Store}
    (ran : Reaches step Careful (Store.initial saltHex hashHex) last) :
    HasRoot last.memory ∧ InSync last := by
  have start : HasRoot (initialCatalog saltHex hashHex) := ⟨_, mem_singleton.mpr rfl, rfl⟩
  have begins : HasRoot (Store.initial saltHex hashHex).memory ∧
      InSync (Store.initial saltHex hashHex) := ⟨start, has_root_saved start⟩
  refine reaches_invariant (fun store => HasRoot store.memory ∧ InSync store) ?_ begins ran
  intro store action next holds met taken
  obtain ⟨root, sync⟩ := holds
  cases action with
  | call call saves =>
    cases taken
    obtain ⟨kept_root, kept_sync, _⟩ := careful_call root sync met
    exact ⟨kept_root, kept_sync⟩
  | reopen =>
    have reopened : step store .reopen = some store := by
      simp only [step]
      rw [show loadUnlocked store.file = some (.success, store.memory) from sync]
      rfl
    cases reopened.symm.trans taken
    exact ⟨root, sync⟩

/-- In every run of careful calls the memory is what the file holds, and a call that fails
changes neither. -/
theorem careful_calls_stay_in_sync {saltHex hashHex : String} {last : Store}
    (ran : Reaches step Careful (Store.initial saltHex hashHex) last) :
    InSync last ∧ ∀ call saves, Careful last (.call call saves) →
      (perform last call saves).1 ≠ .success → (perform last call saves).2 = last := by
  obtain ⟨root, sync⟩ := careful_run_keeps ran
  exact ⟨sync, fun call saves met => (careful_call root sync met).2.2⟩

theorem new_user_stays_in_sync :
    ∃ last : Store, last.memory.users.length = 2 ∧ InSync last ∧ ∀ call saves,
      Careful last (.call call saves) → (perform last call saves).1 ≠ .success →
        (perform last call saves).2 = last := by
  let bob : Call := .createUser "bob" "password" (some ("aa", "bb"))
  have met : Careful (Store.initial "" "") (.call bob true) :=
    ⟨fun _ _ => .inl rfl, fun _ _ => by decide +kernel⟩
  have ran : Reaches step Careful (Store.initial "" "") (perform (Store.initial "" "") bob true).2 :=
    .tail .refl met rfl
  exact ⟨_, by decide +kernel, careful_calls_stay_in_sync ran⟩

/-- The id of the user who was not created is counted in memory only. -/
theorem short_password_counts_id :
    ¬ ∀ (saltHex hashHex : String) (last : Store),
      Reaches step (fun _ _ => True) (Store.initial saltHex hashHex) last →
        InSync last ∧ ∀ call saves, (perform last call saves).1 ≠ .success →
          (perform last call saves).2 = last := by
  intro persistent
  obtain ⟨_, unchanged⟩ := persistent "" "" _ .refl
  have same := unchanged (.createUser "bob" "short" none) true (by decide +kernel)
  have counted : (perform (Store.initial "" "") (.createUser "bob" "short" none)
      true).2.memory.nextUserId = 3 := by decide +kernel
  rw [same] at counted
  exact absurd counted (by decide +kernel)

end CsuDbms.CatalogFileModel
