import Xperimentum.Gorm.ClassHierarchy

/-! The members that a class defines and those it inherits. -/

namespace Xperimentum.Gorm

open ClassManager

/-! From the own lists of the class and of all above it. -/

def ClassManager.Defines (s : ClassManager) (kind : MemberKind) (className member : Name) : Prop :=
  member ∈ (s.members kind className).own.getD [] ∨ member ∈ (s.members kind className).extra.getD []

/-- The class whose members are inherited; nothing is inherited by the first responder's actions. -/
def ClassManager.parent (s : ClassManager) (kind : MemberKind) (className : Name) : Option Name :=
  if kind = .action ∧ className = firstResponder then none else s.superClassNameForClassNamed className

inductive ClassManager.Inherits (s : ClassManager) (kind : MemberKind) : Name → Name → Prop where
  | own {className member : Name} (h : s.Defines kind className member) : Inherits s kind className member
  | super {className superName member : Name} (hsuper : s.parent kind className = some superName)
      (h : Inherits s kind superName member) : Inherits s kind className member

end Xperimentum.Gorm
