import CsuDbms.PrivilegeConfinement

/-!
# What a successful revocation leaves

`revoke` takes the privileges it is given out of the grants with the very same resource. A
grant of `ALL` keeps everything it stands for, and a table is found without regard to case
while its grants are compared letter by letter. Root needs no grant.
-/

namespace CsuDbms.SystemCatalogModel

/-- `Db::find_table` over the names of the opened tables. -/
def findTable (tables : List String) (name : String) : Option String :=
  if name ∈ tables then some name
  else tables.find? fun table => table.toLower == name.toLower

def openHandler (isOpen : String → Bool) (tables : String → List String) : Handler where
  hasDb := isOpen
  hasTable database table := (findTable (tables database) table).isSome

def Scope.Wider : Scope → Scope → Prop
  | .global, scope => scope ≠ .global
  | .database, scope => scope = .table
  | .table, _ => False

variable {Salt Hash : Type} (tables : String → List String)

/-- The table names under which privileges on the resource are asked for. -/
def Resource.Spelled : Resource → String → Prop
  | .table owner name _ _, spelling =>
    findTable (tables owner) spelling = findTable (tables owner) name
  | .database _ _, spelling | .global, spelling => spelling = ""

variable (catalog next : SystemCatalog Salt Hash) (username : String) (privilege : Privilege)
  (resource : Resource)

/-- A grant to the user that covers the resource under one of its spellings. -/
def Covers (grant : PrivilegeGrant) : Prop :=
  grant.username = username ∧ ∃ spelling, resource.Spelled tables spelling ∧
    grant.resourceMatches resource.databaseName spelling = true

def HeldWider : Prop :=
  ∃ grant ∈ catalog.grants, (Covers tables username resource grant ∧
    grant.scope.Wider resource.scope) ∧ (.all ∈ grant.privileges ∨ privilege ∈ grant.privileges)

def HeldAt (place : PrivilegeGrant) : Prop :=
  ∃ grant ∈ catalog.grants, grant.sameResource place = true ∧ privilege ∈ grant.privileges

structure RevocationEffective : Prop where
  refused : ∀ spelling, resource.Spelled tables spelling →
    next.allowed username privilege resource.databaseName spelling = true →
      HeldWider tables next username privilege resource
  others : ∀ place other, ¬(place.sameResource (privilegeGrant [privilege] resource username) =
    true ∧ other = privilege) → (HeldAt next other place ↔ HeldAt catalog other place)

/-- Grants that cover the resource and are not wider hold `ALL` only where it is revoked itself,
and the privilege only where it is revoked. -/
def NothingLeft : Prop :=
  username ≠ rootName ∧ ∀ grant ∈ catalog.grants, Covers tables username resource grant →
    ¬grant.scope.Wider resource.scope →
      let revoked := grant.sameResource (privilegeGrant [privilege] resource username) = true
      (.all ∈ grant.privileges → revoked ∧ .all = privilege) ∧
        (privilege ∈ grant.privileges → revoked)

variable {tables catalog next username privilege resource}

theorem exists_revoked_iff {input : PrivilegeGrant} {Wanted : PrivilegeGrant → Prop}
    (ignores : ∀ grant privileges, Wanted { grant with privileges } ↔ Wanted grant) :
    (∃ grant ∈ (catalog.revoke input).2.grants, Wanted grant ∧ privilege ∈ grant.privileges) ↔
      ∃ grant ∈ catalog.grants, Wanted grant ∧ privilege ∈ grant.privileges ∧
        ¬(grant.sameResource input = true ∧ privilege ∈ input.privileges) := by
  simp only [SystemCatalog.revoke, List.mem_filter, List.mem_map, Bool.not_eq_true',
    List.isEmpty_eq_false_iff_exists_mem]
  constructor
  · rintro ⟨_, ⟨⟨grant, member, rfl⟩, _⟩, wanted, holds⟩
    refine ⟨grant, member, ?_⟩
    split at wanted <;> simp_all
  · rintro ⟨grant, member, wanted, holds, kept⟩
    refine ⟨_, ⟨⟨grant, member, rfl⟩, privilege, ?_⟩, ?_⟩ <;> split <;> simp_all

theorem exists_revoked_all_or {input : PrivilegeGrant} {Wanted : PrivilegeGrant → Prop}
    (ignores : ∀ grant privileges, Wanted { grant with privileges } ↔ Wanted grant) :
    (∃ grant ∈ (catalog.revoke input).2.grants,
        Wanted grant ∧ (.all ∈ grant.privileges ∨ privilege ∈ grant.privileges)) ↔
      ∃ grant ∈ catalog.grants, Wanted grant ∧
        (.all ∈ grant.privileges ∧ ¬(grant.sameResource input = true ∧ .all ∈ input.privileges) ∨
          privilege ∈ grant.privileges ∧
            ¬(grant.sameResource input = true ∧ privilege ∈ input.privileges)) := by
  simp only [and_or_left, exists_or, exists_revoked_iff ignores]

theorem allowed_iff_covered (notRoot : username ≠ rootName) (granted : privilege ≠ .connect) :
    (∃ spelling, resource.Spelled tables spelling ∧
        catalog.allowed username privilege resource.databaseName spelling = true) ↔
      ∃ grant ∈ catalog.grants, Covers tables username resource grant ∧
        (.all ∈ grant.privileges ∨ privilege ∈ grant.privileges) := by
  simp only [allowed_iff notRoot, allows_iff, granted, false_and, false_or, Covers]
  constructor
  · rintro ⟨spelling, spelled, grant, member, named, covered, holds⟩
    exact ⟨grant, member, ⟨named, spelling, spelled, covered⟩, holds⟩
  · rintro ⟨grant, member, ⟨named, spelling, spelled, covered⟩, holds⟩
    exact ⟨spelling, spelled, grant, member, named, covered, holds⟩

theorem wider_apart {grant : PrivilegeGrant} (wider : grant.scope.Wider resource.scope) :
    ¬grant.sameResource (privilegeGrant [privilege] resource username) = true := by
  rw [sameResource_iff]
  rintro ⟨_, scope, _⟩
  rw [scope] at wider
  change resource.scope.Wider resource.scope at wider
  cases kind : resource.scope <;> simp [kind, Scope.Wider] at wider

theorem held_wider_revoked :
    HeldWider tables (catalog.revoke (privilegeGrant [privilege] resource username)).2 username
      privilege resource ↔ HeldWider tables catalog username privilege resource := by
  rw [HeldWider, exists_revoked_all_or fun _ _ => Iff.rfl, HeldWider]
  refine exists_congr fun grant => and_congr_right fun _ => and_congr_right fun wanted => ?_
  simp [wider_apart wanted.2]

theorem held_at_revoked {place : PrivilegeGrant} {other : Privilege}
    (apart : ¬(place.sameResource (privilegeGrant [privilege] resource username) = true ∧
      other = privilege)) :
    HeldAt (catalog.revoke (privilegeGrant [privilege] resource username)).2 other place ↔
      HeldAt catalog other place := by
  rw [HeldAt, exists_revoked_iff fun _ _ => Iff.rfl, HeldAt]
  refine exists_congr fun grant => and_congr_right fun _ => and_congr_right fun same => ?_
  refine and_iff_left fun ⟨revoked, listed⟩ => apart ⟨?_, List.mem_singleton.mp listed⟩
  rw [sameResource_iff] at same revoked ⊢
  simp_all

/-- A successful `REVOKE` takes effect just if a wider grant remains anyway or nothing that
covers the resource is left. -/
theorem revocation_effective_iff {isOpen : String → Bool} {session : Session} {text : String}
    (named : validPrivilege text = some privilege)
    (success : executePrivilege (openHandler isOpen tables) catalog session false [text] resource
      username = (.success, next)) :
    RevocationEffective tables catalog next username privilege resource ↔
      HeldWider tables catalog username privilege resource ∨
        NothingLeft tables catalog username privilege resource := by
  obtain rfl : next = (catalog.revoke (privilegeGrant [privilege] resource username)).2 := by
    rcases @executePrivilege_cases _ _ (openHandler isOpen tables) catalog session false
      [text] resource username with ⟨failed, _⟩ | ⟨_, _, parsed, ⟨impossible, _⟩ | ⟨_, revoked⟩⟩
    · simp [success] at failed
    · cases impossible
    · simp_all
  have granted : privilege ≠ .connect := by
    rintro rfl
    unfold validPrivilege at named
    split at named <;> simp at named
  have listed : ∀ other, other ∈ (privilegeGrant [privilege] resource username).privileges ↔
      other = privilege := fun _ => List.mem_singleton
  have wider := @held_wider_revoked _ _ tables catalog username privilege resource
  constructor
  · intro effective
    refine or_iff_not_imp_left.mpr fun none => ?_
    have refused : ∀ spelling, resource.Spelled tables spelling → ¬SystemCatalog.allowed
        (catalog.revoke (privilegeGrant [privilege] resource username)).2 username privilege
        resource.databaseName spelling = true :=
      fun spelling spelled allowed => none (wider.mp (effective.refused spelling spelled allowed))
    have notRoot : username ≠ rootName := by
      rintro rfl
      exact refused resource.tableName (by cases resource <;> rfl) rfl
    refine ⟨notRoot, fun grant member covers narrow => ?_⟩
    have covered := mt (allowed_iff_covered notRoot granted).mpr (not_exists.mpr fun spelling =>
      not_and.mpr (refused spelling))
    rw [exists_revoked_all_or fun _ _ => Iff.rfl] at covered
    have gone := fun kept => covered ⟨grant, member, covers, kept⟩
    simp only [listed, and_true] at gone
    tauto
  · rintro (held | ⟨notRoot, nothing⟩)
    · exact ⟨fun _ _ _ => wider.mpr held, fun _ _ => held_at_revoked⟩
    · refine ⟨fun spelling spelled allowed => wider.mpr ?_, fun _ _ => held_at_revoked⟩
      obtain ⟨grant, member, covers, kept⟩ := (exists_revoked_all_or fun _ _ => Iff.rfl).mp
        ((allowed_iff_covered notRoot granted).mp ⟨spelling, spelled, allowed⟩)
      refine ⟨grant, member, ⟨covers, ?_⟩, kept.imp And.left And.left⟩
      by_contra narrow
      have gone := nothing grant member covers narrow
      simp only [listed, and_true] at kept
      tauto

def bobsTable : Resource := .table "sys" "t" rfl rfl

def tableOpen : Handler := openHandler (fun _ => true) fun _ => ["t"]

def bobGranted (text : String) : SystemCatalog Unit Unit :=
  (executePrivilege tableOpen ⟨3, [⟨1, "root", (), ()⟩, ⟨2, "bob", (), ()⟩], ["sys"], []⟩
    rootSession true [text] bobsTable "bob").2

def bobRevoked (text : String) : RC × SystemCatalog Unit Unit :=
  executePrivilege tableOpen (bobGranted text) rootSession false ["SELECT"] bobsTable "bob"

theorem bob_loses_select : RevocationEffective (fun _ => ["t"]) (bobGranted "SELECT")
    (bobRevoked "SELECT").2 "bob" .select bobsTable := by
  have success : bobRevoked "SELECT" = (.success, (bobRevoked "SELECT").2) :=
    Prod.ext (by decide +kernel) rfl
  have named : validPrivilege "SELECT" = some .select := rfl
  refine (revocation_effective_iff named success).mpr (.inr ⟨by decide, ?_⟩)
  have grants : (bobGranted "SELECT").grants = [privilegeGrant [.select] bobsTable "bob"] := by
    decide +kernel
  rw [grants]
  intro grant member _ _
  rw [List.mem_singleton.mp member]
  decide

theorem bob_keeps_select : (bobRevoked "ALL").1 = .success ∧ ¬RevocationEffective
    (fun _ => ["t"]) (bobGranted "ALL") (bobRevoked "ALL").2 "bob" .select bobsTable := by
  refine ⟨by decide +kernel, fun effective => ?_⟩
  obtain ⟨grant, member, ⟨_, wider⟩, _⟩ := effective.refused "t" rfl (by decide +kernel)
  have grants : (bobRevoked "ALL").2.grants = [privilegeGrant [.all] bobsTable "bob"] := by
    decide +kernel
  rw [grants] at member
  rw [List.mem_singleton.mp member] at wider
  exact wider

end CsuDbms.SystemCatalogModel
