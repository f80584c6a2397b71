/-!
The syntactic categories of declaration source text. A category is told apart from others in the
tree of a text if it is visible; a hidden one only groups what stands in its place.
-/

namespace TypeDiagram.Source

inductive Category where
  | program | exportStatement | namespaceExport | exportClause | exportSpecifier | exportedName
  | declaration | importWord | importStatement | importClause | fromClause | namespaceImport
  | namedImports | importSpecifier | importAttribute | statement | expressionStatement
  | variableDeclaration | lexicalDeclaration | variableDeclarator | statementBlock | elseClause
  | ifStatement | switchStatement | forStatement | forInStatement | forHeader | whileStatement
  | doStatement | tryStatement | withStatement | breakStatement | continueStatement
  | debuggerStatement | returnStatement | throwStatement | emptyStatement | labeledStatement
  | switchBody | switchCase | switchDefault | catchClause | finallyClause | parenthesizedExpression
  | expression | primaryExpression | yieldExpression | objectExpression | objectPattern
  | assignmentPattern | objectAssignmentPattern | arrayExpression | arrayPattern | classExpression
  | classDeclaration | classHeritage | functionExpression | functionDeclaration | generatorFunction
  | generatorFunctionDeclaration | arrowFunction | signature | formalParameter | optionalChain
  | callExpression | newExpression | awaitExpression | memberExpression | subscriptExpression
  | assignmentExpression | augmentedTarget | augmentedAssignment | initializer
  | destructuringPattern | spreadElement | ternaryExpression | binaryExpression | unaryExpression
  | updateExpression | sequenceExpression | stringLiteral | templateString | templateSubstitution
  | regex | metaProperty | arguments | decorator | decoratorMember | decoratorCall | classBody
  | formalParameters | classStaticBlock | pattern | restPattern | methodDefinition | pairElement
  | pairPattern | propertyName | computedPropertyName | publicFieldDefinition | importIdentifier
  | nonNullExpression | methodSignature | abstractMethodSignature | functionSignature
  | decoratorParenthesized | typeAssertion | asExpression | satisfiesExpression
  | instantiationExpression | importRequireClause | extendsClause | extendsItem | implementsClause
  | ambientDeclaration | abstractClassDeclaration | moduleDeclaration | internalModule | moduleBody
  | importAlias | nestedIdentifier | nestedTypeIdentifier | interfaceDeclaration | extendsTypeClause
  | enumDeclaration | enumBody | enumAssignment | typeAliasDeclaration | accessibilityModifier
  | overrideModifier | requiredParameter | optionalParameter | parameterName
  | omittingTypeAscription | addingTypeAscription | optingTypeAscription | typeAscription
  | queryMemberInAscription | queryCallInAscription | asserts | assertsAscription | typeExpression
  | tupleParameter | optionalTupleParameter | optionalType | restType | tupleMember
  | constructorType | primaryType | templateType | templateLiteralType | inferType | conditionalType
  | genericType | typePredicate | typePredicateAscription | queryMember | querySubscript | queryCall
  | queryInstantiation | typeQuery | indexTypeQuery | lookupType | mappedTypeClause | literalType
  | signedNumber | existentialType | maybeType | parenthesizedType | predefinedType | typeArguments
  | objectType | callSignature | propertySignature | typeParameters | typeParameter | defaultType
  | constraint | constructSignature | indexSignature | arrayType | tupleType | readonlyType
  | unionType | intersectionType | functionType
deriving DecidableEq, Hashable, Repr

namespace Category

def isHidden : Category → Bool
  | exportedName | declaration | fromClause | statement | forHeader | expression | primaryExpression
  | signature | formalParameter | augmentedTarget | initializer | destructuringPattern | pattern
  | propertyName | importIdentifier | extendsItem | moduleBody | parameterName
  | queryMemberInAscription | queryCallInAscription | typeExpression | tupleMember | primaryType
  | queryMember | querySubscript | queryCall | queryInstantiation | signedNumber => true
  | _ => false

/-- Hidden categories that stand for one of several kinds of node. -/
def isUnion : Category → Bool
  | declaration | statement | expression | primaryExpression | pattern | typeExpression
  | primaryType => true
  | _ => false

def code (c : Category) : Nat := c.ctorIdx

def count : Nat := 186

theorem code_lt_count (c : Category) : c.code < count := by
  cases c <;> decide

def ofCode? (n : Nat) : Option Category :=
  if n < count then some (ofNat n) else none

end Category

end TypeDiagram.Source
