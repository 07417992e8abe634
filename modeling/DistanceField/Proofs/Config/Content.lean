import DistanceField.Proofs.Config.Accepted
import DistanceField.Proofs.Json.Records

/-!
# Content of configurations

The answer for a text depends on the members alone that the text has as a record: not on their
order, not on blanks, and not on whether they are an object or an array.
-/

namespace DistanceField.Config
open Json

variable {text other : String} {members others : List (Option String × Value)} {config : Config}
  {value : Value}

/-- The members that a text has: those of the object that it spells, or the elements of the array
that it spells under the first names of fields. -/
def Content (text : String) (members : List (Option String × Value)) : Prop :=
  ∃ value : Value, value.Spells text ∧ value.HasMembers fieldNames members

/-- The configuration that members describe. All of them are named for fields and none twice, and
each field is what its member is read as or else its default. -/
structure Describes (members : List (Option String × Value)) (config : Config) : Prop where
  known : ∀ member ∈ members, ∃ name ∈ fieldNames, member.1 = some name
  distinct : (members.map Prod.fst).Nodup
  maxDistance :
    Fills members "maxDistance" Value.binary32? ({} : Config).maxDistance config.maxDistance
  maxIterations :
    Fills members "maxIterations" Value.uint32? ({} : Config).maxIterations config.maxIterations
  epsilon : Fills members "epsilon" Value.binary32? ({} : Config).epsilon config.epsilon
  surfaceColor :
    Fills members "surfaceColor" triple? ({} : Config).surfaceColor config.surfaceColor
  skyColor : Fills members "skyColor" triple? ({} : Config).skyColor config.skyColor
  lightDirection :
    Fills members "lightDirection" triple? ({} : Config).lightDirection config.lightDirection

theorem Describes.perm (describes : Describes members config) (perm : members.Perm others) :
    Describes others config where
  known member mem := describes.known member (perm.mem_iff.mpr mem)
  distinct := (perm.map Prod.fst).nodup_iff.mp describes.distinct
  maxDistance := describes.maxDistance.perm perm
  maxIterations := describes.maxIterations.perm perm
  epsilon := describes.epsilon.perm perm
  surfaceColor := describes.surfaceColor.perm perm
  skyColor := describes.skyColor.perm perm
  lightDirection := describes.lightDirection.perm perm

theorem ofValue?_eq_some_iff : ofValue? value = some config ↔
    ∃ members, value.HasMembers fieldNames members ∧ Describes members config := by
  have distinctNames : fieldNames.Nodup := by decide
  simp only [ofValue?, Option.bind_eq_bind, Option.bind_eq_some_iff,
    Record.ofValue?_eq_some_iff distinctNames, ← Record.forall_mem_toMembers_iff]
  constructor
  · rintro ⟨record, ⟨has, known, distinct⟩, maxDistance, ofMaxDistance, maxIterations,
      ofMaxIterations, epsilon, ofEpsilon, surfaceColor, ofSurfaceColor, skyColor, ofSkyColor,
      lightDirection, ofLightDirection, same⟩
    cases same
    rw [Record.optional_eq_some_iff distinct] at ofMaxDistance ofMaxIterations ofEpsilon
    rw [Record.optional_eq_some_iff distinct] at ofSurfaceColor ofSkyColor ofLightDirection
    exact ⟨record.toMembers, has, known, Record.nodup_map_fst_toMembers.mpr distinct,
      ofMaxDistance, ofMaxIterations, ofEpsilon, ofSurfaceColor, ofSkyColor, ofLightDirection⟩
  · rintro ⟨members, has, describes⟩
    obtain ⟨record, rfl⟩ := Record.exists_toMembers_eq describes.known
    have distinct := Record.nodup_map_fst_toMembers.mp describes.distinct
    refine ⟨record, ⟨has, describes.known, distinct⟩, ?_⟩
    simp only [Record.optional_eq_some_iff distinct]
    exact ⟨config.maxDistance, describes.maxDistance, config.maxIterations,
      describes.maxIterations, config.epsilon, describes.epsilon, config.surfaceColor,
      describes.surfaceColor, config.skyColor, describes.skyColor, config.lightDirection,
      describes.lightDirection, rfl⟩

theorem Content.unique (content : Content text members) (content' : Content text others) :
    members = others := by
  obtain ⟨value, spells, has⟩ := content
  obtain ⟨value', spells', has'⟩ := content'
  have same := Value.ofText?_eq_some_iff.mpr spells
  rw [Value.ofText?_eq_some_iff.mpr spells', Option.some.injEq] at same
  subst same
  exact has.unique has'

theorem read_eq_some_iff : (Value.ofText? text).bind ofValue? = some config ↔
    ∃ members, Content text members ∧ Describes members config := by
  simp only [Option.bind_eq_some_iff, Value.ofText?_eq_some_iff, ofValue?_eq_some_iff, Content]
  exact ⟨fun ⟨value, spells, members, has, describes⟩ => ⟨members, ⟨value, spells, has⟩, describes⟩,
    fun ⟨members, ⟨value, spells, has⟩, describes⟩ => ⟨value, spells, members, has, describes⟩⟩

theorem read_eq_some_iff_describes (content : Content text members) :
    (Value.ofText? text).bind ofValue? = some config ↔ Describes members config := by
  rw [read_eq_some_iff]
  constructor
  · rintro ⟨others, content', describes⟩
    rwa [content.unique content']
  · exact fun describes => ⟨members, content, describes⟩

theorem ofText_eq_malformed (content : Content text members)
    (none : ∀ config, ¬ Describes members config) : ofText text = .error .malformed := by
  have unread : (Value.ofText? text).bind ofValue? = Option.none :=
    Option.eq_none_iff_forall_ne_some.mpr fun config read =>
      none config ((read_eq_some_iff_describes content).mp read)
  rw [ofText, unread]

theorem ofText_perm (content : Content text members) (content' : Content other others)
    (perm : members.Perm others) : ofText other = ofText text := by
  have same : (Value.ofText? other).bind ofValue? = (Value.ofText? text).bind ofValue? := by
    ext config
    rw [read_eq_some_iff_describes content, read_eq_some_iff_describes content']
    exact ⟨fun describes => describes.perm perm.symm, fun describes => describes.perm perm⟩
  rw [ofText, ofText, same]

theorem ofText_laid {tokens : List Token} (laid : Laid tokens text.toList)
    (laid' : Laid tokens other.toList) : ofText other = ofText text := by
  rw [ofText, ofText, Value.ofText?, Value.ofText?, tokens?_eq_some_iff.mpr laid,
    tokens?_eq_some_iff.mpr laid']

/-- The answer for a text depends only on the members that it has: an accepted configuration is the
one that they describe, and so is one that its check refuses; neither the order of the members, nor
blanks, nor the choice of an object or an array matters; and members with an unknown or a repeated
key are refused. -/
theorem ofText_content :
    (∀ text config, ofText text = .ok config ↔
      (∃ members, Content text members ∧ Describes members config) ∧ config.Sound) ∧
    (∀ text fault, ofText text = .error (.refused fault) ↔ ∃ config,
      (∃ members, Content text members ∧ Describes members config) ∧
        config.check = .error fault) ∧
    (∀ text other members others, Content text members → Content other others →
      members.Perm others → ofText other = ofText text) ∧
    (∀ text other tokens, Laid tokens text.toList → Laid tokens other.toList →
      ofText other = ofText text) ∧
    (∀ text members, Content text members →
      (∃ member ∈ members, ∀ name ∈ fieldNames, member.1 ≠ some name) ∨
        ¬ (members.map Prod.fst).Nodup → ofText text = .error .malformed) := by
  refine ⟨fun text config => ?_, fun text fault => ?_, fun text other members others => ofText_perm,
    fun text other tokens => ofText_laid, fun text members content refused => ?_⟩
  · rw [ofText_eq_ok_iff, read_eq_some_iff, check_eq_ok_iff]
  · simp only [ofText_eq_refused_iff, read_eq_some_iff]
  · refine ofText_eq_malformed content fun config describes => ?_
    rcases refused with ⟨member, mem, unknown⟩ | repeated
    · obtain ⟨name, known, named⟩ := describes.known member mem
      exact unknown name known named
    · exact repeated describes.distinct

def far : List (Option String × Value) :=
  [(some "maxDistance", .number ⟨false, [3, 0, 0], [], none⟩),
    (some "maxIterations", .number ⟨false, [6, 4], [], none⟩)]

theorem ofText_far :
    ofText "[300, 64]" = .ok { maxDistance := 300, maxIterations := 64 } ∧
    Describes far { maxDistance := 300, maxIterations := 64 } ∧
    ofText "\x7b \"maxIterations\" : 64,\n  \"maxDistance\": 300\n\x7d" = ofText "[300, 64]" ∧
    ofText "\x7b\"maxDistance\":300,\"maxIterations\":64,\"maxDistance\":300\x7d" =
      .error .malformed := by
  obtain ⟨accepted, -, perm, -, refused⟩ := ofText_content
  have array : Content "[300, 64]" far :=
    ⟨.array (far.map Prod.snd), tokens?_eq_some_iff.mp (by decide +kernel), .array (by decide)⟩
  have object : Content "\x7b \"maxIterations\" : 64,\n  \"maxDistance\": 300\n\x7d" far.reverse :=
    ⟨.object far.reverse, tokens?_eq_some_iff.mp (by decide +kernel), .object _⟩
  have repeated : Content "\x7b\"maxDistance\":300,\"maxIterations\":64,\"maxDistance\":300\x7d"
      (far ++ far.take 1) :=
    ⟨.object (far ++ far.take 1), tokens?_eq_some_iff.mp (by decide +kernel), .object _⟩
  have ok : ofText "[300, 64]" = .ok { maxDistance := 300, maxIterations := 64 } := by
    decide +kernel
  obtain ⟨⟨members, content, describes⟩, -⟩ := (accepted _ _).mp ok
  rw [content.unique array] at describes
  exact ⟨ok, describes, perm _ _ _ _ array object (List.reverse_perm far).symm,
    refused _ _ repeated (.inr (by decide))⟩

end DistanceField.Config
