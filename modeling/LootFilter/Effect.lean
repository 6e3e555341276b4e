import LootFilter.Json.Value
import LootFilter.Keyword

/-
  This file puts visual effects on the descriptors of assets.
  An effect is an entity of the descriptor, told by its name;
  a descriptor that has the entity is left as it is.

  An effect is put on a descriptor in place, step by step, and
  a fault leaves what the steps before it made.

  Key definitions include:
    * `VisualEffect.entityName`
    * `VisualEffect.entity`
    * `AssetFault`
    * `VisualEffect.putOn`
    * `VisualEffect.apply`
-/

namespace LootFilter

open Json (Value)

namespace VisualEffect

------------------------------------------------------------
-- Entities
------------------------------------------------------------

/- The particles of an effect. -/
def particles : VisualEffect → String
| .beam =>
    "data/hd/vfx/particles/overlays/object/horadric_light/" ++
      "fx_horadric_light.particles"
| .glitter =>
    "data/hd/vfx/particles/overlays/paladin/aura_fanatic/" ++
      "aura_fanatic.particles"
| .flash =>
    "data/hd/vfx/particles/overlays/common/valkyriestart/" ++
      "valkriestart_overlay.particles"

/- The name of the entity of an effect. -/
def entityName : VisualEffect → String
| .beam => "entity_beam"
| .glitter => "entity_glitter"
| .flash => "entity_flash"

/- The number of the entity of an effect. -/
def entityId : VisualEffect → Int
| .beam => 987654321001
| .glitter => 987654321002
| .flash => 987654321003

/- The name of the component that shows an effect. -/
def componentName : VisualEffect → String
| .beam => "entity_vfx_beam"
| .glitter => "entity_vfx_glitter"
| .flash => "entity_vfx_flash"

/- The component that keeps an effect at the item's place. -/
def transformComponent : Value :=
  let axes (n : Int) : List (String × Value) :=
    [("x", .ofInt n), ("y", .ofInt n), ("z", .ofInt n)]
  .object [
    ("type", .text "TransformDefinitionComponent"),
    ("name", .text "component_transform1"),
    ("position", .object (axes 0)),
    ("orientation", .object (axes 0 ++ [("w", .ofInt 1)])),
    ("scale", .object (axes 1)),
    ("inheritOnlyPosition", .bool false)]

/- The component that shows an effect. -/
def showComponent (effect : VisualEffect) : Value :=
  .object [
    ("type", .text "VfxDefinitionComponent"),
    ("name", .text effect.componentName),
    ("filename", .text effect.particles),
    ("hardKillOnDestroy", .bool false)]

/- The components of the entity of an effect. -/
def components : VisualEffect → List Value
| .beam => [transformComponent, showComponent .beam]
| .glitter => [showComponent .glitter]
| .flash => [transformComponent, showComponent .flash]

/- The entity of an effect. -/
def entity (effect : VisualEffect) : Value :=
  .object [
    ("type", .text "Entity"),
    ("name", .text effect.entityName),
    ("id", .ofInt effect.entityId),
    ("components", .array effect.components)]

end VisualEffect

------------------------------------------------------------
-- Descriptors
------------------------------------------------------------

/- What a descriptor lacks. -/
inductive AssetFault where
| noEntities
| noParticles
deriving DecidableEq, Repr

/- The wording of what is lacking. -/
def AssetFault.message : AssetFault → String
| .noEntities => "missing 'entities' array"
| .noParticles => "missing 'dependencies.particles' array"

namespace VisualEffect

/- The entities of a descriptor. -/
def entities? (doc : Value) : Option (List Value) := do
  (← doc.member? "entities").items?

/- The particles that a descriptor depends on. -/
def particleList? (doc : Value) : Option (List Value) := do
  (← (← doc.member? "dependencies").member? "particles").items?

/- The descriptor with one more entity. -/
def pushEntity
    (doc : Value)
    (entities : List Value)
    (effect : VisualEffect) : Value :=
  doc.setMember "entities" (.array (entities ++ [effect.entity]))

/-
  The descriptor with the particles of the beam among those
  that it depends on.
-/
def pushParticles (doc : Value) : Except AssetFault Value :=
  match doc.member? "dependencies", particleList? doc with
  | some dependencies, some list =>
      let path : Value :=
        .object [("path", .text (particles .beam))]
      .ok (doc.setMember "dependencies"
        (dependencies.setMember "particles"
          (.array (list ++ [path]))))
  | _, _ => .error .noParticles

/- List the particles of the beam in place. -/
def listParticles : EStateM AssetFault Value Unit :=
  fun doc =>
    match pushParticles doc with
    | .error fault => .error fault doc
    | .ok ready => .ok () ready

/- List the entity of an effect in place, if there is a list. -/
def listEntity
    (effect : VisualEffect) :
    EStateM AssetFault Value Unit :=
  modify fun doc =>
    match entities? doc with
    | none => doc
    | some entities => pushEntity doc entities effect

/-
  Put an effect on a descriptor in place.  Only the beam needs
  its particles to be listed as well.
-/
def putOn
    (effect : VisualEffect) :
    EStateM AssetFault Value Unit := do
  match entities? (← get) with
  | none => throw .noEntities
  | some entities =>
      if entities.any
          (fun e =>
            e.memberText? "name" == some effect.entityName)
      then
        return ()
      else
        if effect = .beam then
          listParticles
        listEntity effect

/- The descriptor with an effect, if it takes it. -/
def apply
    (effect : VisualEffect)
    (doc : Value) : Except AssetFault Value :=
  match effect.putOn.run doc with
  | .ok _ result => .ok result
  | .error fault _ => .error fault

end VisualEffect

end LootFilter
