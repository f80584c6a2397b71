import TypeDiagram.Source.Phrase

/-!
The grammar: one phrase for every category. Declarations may stand among any other statements, so
the grammar knows statements and expressions in full.
-/

namespace TypeDiagram.Source

namespace Phrase

open Category

def identifier : Phrase := Terminal.identifier
def privateName : Phrase := Terminal.privateName
def number : Phrase := Terminal.number
def hashBang : Phrase := Terminal.hashBang
def doubleText : Phrase := Terminal.doubleText
def singleText : Phrase := Terminal.singleText
def escape : Phrase := Terminal.escape
def regexBody : Phrase := Terminal.regexBody
def regexEnd : Phrase := Terminal.regexEnd
def regexFlags : Phrase := Terminal.regexFlags
def automaticSemicolon : Phrase := Terminal.automaticSemicolon
def signatureSemicolon : Phrase := Terminal.signatureSemicolon
def templateText : Phrase := Terminal.templateText
def ternaryMark : Phrase := Terminal.ternaryMark

/-- Keywords that are identifiers where they have no other meaning. -/
def softKeyword : Phrase :=
  oneOf [
    "declare", "namespace", "type", "public", "private", "protected", "override", "readonly",
    "module", "any", "number", "boolean", "string", "symbol", "export", "object", "new", "get",
    "set", "async", "static", "let"]

def terminator : Phrase := oneOf [automaticSemicolon, ";"]

def typeName : Phrase := named .typeIdentifier identifier

def plainName : Phrase := oneOf ["undefined", identifier]

def expressions : Phrase := oneOf [expression, sequenceExpression]

def assignable : Phrase :=
  oneOf [
    memberExpression, subscriptExpression, plainName, named .identifier softKeyword,
    destructuringPattern, nonNullExpression]

def operation (level : Level) (operator : Phrase) : Phrase :=
  leftward (.level level) (seq [
    field .left expression, field .operator operator, field .right expression])

def typeMember : Phrase :=
  oneOf [
    exportStatement, propertySignature, callSignature, constructSignature, indexSignature,
    methodSignature]

end Phrase

namespace Category

open Phrase

def rule : Category → Phrase
  | .program => seq [opt hashBang, many statement]
  | .exportStatement =>
    oneOf [
      seq [
        "export",
        oneOf [
          seq ["*", fromClause], seq [namespaceExport, fromClause], seq [exportClause, fromClause],
          exportClause],
        terminator],
      seq [
        many (field .decorator decorator), "export",
        oneOf [
          field .declaration declaration,
          seq [
            "default",
            oneOf [field .declaration declaration, seq [field .value expression, terminator]]]]],
      seq ["export", "type", exportClause, opt fromClause, terminator],
      seq ["export", "import", importAlias], seq ["export", "=", expression, terminator],
      seq ["export", "as", "namespace", identifier, terminator]]
  | .namespaceExport => seq ["*", "as", exportedName]
  | .exportClause => seq ["\x7b", opt (commaList exportSpecifier), opt ",", "\x7d"]
  | .exportSpecifier =>
    seq [
      opt (oneOf ["type", "typeof"]), field .name exportedName,
      opt (seq ["as", field .newName exportedName])]
  | .exportedName => oneOf [identifier, stringLiteral, "default"]
  | .declaration =>
    oneOf [
      functionDeclaration, generatorFunctionDeclaration, classDeclaration, lexicalDeclaration,
      variableDeclaration, functionSignature, abstractClassDeclaration, moduleDeclaration,
      ranked (.level .declaring) internalModule, typeAliasDeclaration, enumDeclaration,
      interfaceDeclaration, importAlias, ambientDeclaration]
  | .importWord => "import"
  | .importStatement =>
    seq [
      "import", opt (oneOf ["type", "typeof"]),
      oneOf [seq [importClause, fromClause], importRequireClause, field .source stringLiteral],
      opt importAttribute, terminator]
  | .importClause =>
    oneOf [
      namespaceImport, namedImports,
      seq [importIdentifier, opt (seq [",", oneOf [namespaceImport, namedImports]])]]
  | .fromClause => seq ["from", field .source stringLiteral]
  | .namespaceImport => seq ["*", "as", identifier]
  | .namedImports => seq ["\x7b", opt (commaList importSpecifier), opt ",", "\x7d"]
  | .importSpecifier =>
    seq [
      opt (oneOf ["type", "typeof"]),
      oneOf [
        field .name importIdentifier,
        seq [
          field .name (oneOf [exportedName, named .identifier "type"]), "as",
          field .newName importIdentifier]]]
  | .importAttribute => seq [oneOf ["with", "assert"], objectExpression]
  | .statement =>
    oneOf [
      exportStatement, importStatement, debuggerStatement, expressionStatement, declaration,
      statementBlock, ifStatement, switchStatement, forStatement, forInStatement, whileStatement,
      doStatement, tryStatement, withStatement, breakStatement, continueStatement, returnStatement,
      throwStatement, emptyStatement, labeledStatement]
  | .expressionStatement => seq [expressions, terminator]
  | .variableDeclaration => seq ["var", commaList variableDeclarator, terminator]
  | .lexicalDeclaration =>
    seq [field .kind (oneOf ["let", "const"]), commaList variableDeclarator, terminator]
  | .variableDeclarator =>
    oneOf [
      seq [
        field .name (oneOf [identifier, destructuringPattern]), field .type (opt typeAscription),
        opt initializer],
      ranked (.level .declaring) (seq [field .name identifier, "!", field .type typeAscription])]
  | .statementBlock =>
    rightward .zero (seq ["\x7b", many statement, "\x7d", opt automaticSemicolon])
  | .elseClause => seq ["else", statement]
  | .ifStatement =>
    rightward .zero (seq [
      "if", field .condition parenthesizedExpression, field .consequence statement,
      opt (field .alternative elseClause)])
  | .switchStatement => seq ["switch", field .value parenthesizedExpression, field .body switchBody]
  | .forStatement =>
    seq [
      "for", "(",
      oneOf [
        field .initializer (oneOf [lexicalDeclaration, variableDeclaration]),
        seq [field .initializer expressions, ";"], field .initializer emptyStatement],
      field .condition (oneOf [seq [expressions, ";"], emptyStatement]),
      field .increment (opt expressions), ")", field .body statement]
  | .forInStatement => seq ["for", opt "await", forHeader, field .body statement]
  | .forHeader =>
    seq [
      "(",
      oneOf [
        field .left (oneOf [assignable, parenthesizedExpression]),
        seq [
          field .kind "var", field .left (oneOf [identifier, destructuringPattern]),
          opt initializer],
        seq [
          field .kind (oneOf ["let", "const"]),
          field .left (oneOf [identifier, destructuringPattern]), opt automaticSemicolon]],
      field .operator (oneOf ["in", "of"]), field .right expressions, ")"]
  | .whileStatement =>
    seq ["while", field .condition parenthesizedExpression, field .body statement]
  | .doStatement =>
    rightward .zero (seq [
      "do", field .body statement, "while", field .condition parenthesizedExpression,
      opt terminator])
  | .tryStatement =>
    seq [
      "try", field .body statementBlock, opt (field .handler catchClause),
      opt (field .finalizer finallyClause)]
  | .withStatement => seq ["with", field .object parenthesizedExpression, field .body statement]
  | .breakStatement =>
    seq ["break", field .label (opt (named .statementIdentifier identifier)), terminator]
  | .continueStatement =>
    seq ["continue", field .label (opt (named .statementIdentifier identifier)), terminator]
  | .debuggerStatement => seq ["debugger", terminator]
  | .returnStatement => seq ["return", opt expressions, terminator]
  | .throwStatement => seq ["throw", expressions, terminator]
  | .emptyStatement => ";"
  | .labeledStatement =>
    weighted (-1) (seq [
      field .label (named .statementIdentifier (oneOf [identifier, softKeyword])), ":",
      field .body statement])
  | .switchBody => seq ["\x7b", many (oneOf [switchCase, switchDefault]), "\x7d"]
  | .switchCase => seq ["case", field .value expressions, ":", field .body (many statement)]
  | .switchDefault => seq ["default", ":", field .body (many statement)]
  | .catchClause =>
    seq [
      "catch",
      opt (seq [
        "(", field .parameter (oneOf [identifier, destructuringPattern]),
        opt (field .type typeAscription), ")"]),
      field .body statementBlock]
  | .finallyClause => seq ["finally", field .body statementBlock]
  | .parenthesizedExpression =>
    seq ["(", oneOf [seq [expression, field .type (opt typeAscription)], sequenceExpression], ")"]
  | .expression =>
    oneOf [
      asExpression, satisfiesExpression, instantiationExpression, internalModule, typeAssertion,
      primaryExpression, assignmentExpression, augmentedAssignment, awaitExpression,
      unaryExpression, binaryExpression, ternaryExpression, updateExpression, newExpression,
      yieldExpression, arrowFunction]
  | .primaryExpression =>
    oneOf [
      subscriptExpression, memberExpression, parenthesizedExpression, plainName,
      named .identifier softKeyword, "this", "super", number, stringLiteral, templateString, regex,
      "true", "false", "null", objectExpression, arrayExpression, functionExpression,
      generatorFunction, classExpression, metaProperty, callExpression, nonNullExpression]
  | .yieldExpression =>
    rightward .zero (seq ["yield", opt (oneOf [seq ["*", expression], expression])])
  | .objectExpression =>
    ranked (.level .object) (seq [
      "\x7b",
      opt (commaList (opt (oneOf [
            pairElement, spreadElement, methodDefinition,
            named .shorthandPropertyIdentifier (oneOf [identifier, softKeyword])]))),
      "\x7d"])
  | .objectPattern =>
    ranked (.level .object) (seq [
      "\x7b",
      opt (commaList (opt (oneOf [
            pairPattern, restPattern, objectAssignmentPattern,
            named .shorthandPropertyIdentifierPattern (oneOf [identifier, softKeyword])]))),
      "\x7d"])
  | .assignmentPattern => seq [field .left pattern, "=", field .right expression]
  | .objectAssignmentPattern =>
    seq [
      field .left (oneOf [
        named .shorthandPropertyIdentifierPattern (oneOf [softKeyword, identifier]),
        destructuringPattern]),
      "=", field .right expression]
  | .arrayExpression => seq ["[", opt (commaList (opt (oneOf [expression, spreadElement]))), "]"]
  | .arrayPattern => seq ["[", opt (commaList (opt (oneOf [pattern, assignmentPattern]))), "]"]
  | .classExpression =>
    ranked (.level .literal) (seq [
      many (field .decorator decorator), "class", field .name (opt typeName),
      field .typeParameters (opt typeParameters), opt classHeritage, field .body classBody])
  | .classDeclaration =>
    leftward (.level .declaring) (seq [
      many (field .decorator decorator), "class", field .name typeName,
      field .typeParameters (opt typeParameters), opt classHeritage, field .body classBody,
      opt automaticSemicolon])
  | .classHeritage => oneOf [seq [extendsClause, opt implementsClause], implementsClause]
  | .functionExpression =>
    ranked (.level .literal) (seq [
      opt "async", "function", field .name (opt identifier), signature, field .body statementBlock])
  | .functionDeclaration =>
    rightward (.level .declaring) (seq [
      opt "async", "function", field .name identifier, signature, field .body statementBlock,
      opt automaticSemicolon])
  | .generatorFunction =>
    ranked (.level .literal) (seq [
      opt "async", "function", "*", field .name (opt identifier), signature,
      field .body statementBlock])
  | .generatorFunctionDeclaration =>
    rightward (.level .declaring) (seq [
      opt "async", "function", "*", field .name identifier, signature, field .body statementBlock,
      opt automaticSemicolon])
  | .arrowFunction =>
    seq [
      opt "async",
      oneOf [field .parameter (oneOf [named .identifier softKeyword, identifier]), signature], "=>",
      field .body (oneOf [expression, statementBlock])]
  | .signature =>
    seq [
      field .typeParameters (opt typeParameters), field .parameters formalParameters,
      field .returnType (opt (oneOf [typeAscription, assertsAscription, typePredicateAscription]))]
  | .formalParameter => oneOf [requiredParameter, optionalParameter]
  | .optionalChain => "?."
  | .callExpression =>
    oneOf [
      ranked (.level .call) (seq [
        field .function (oneOf [expression, importWord]), field .typeArguments (opt typeArguments),
        field .arguments arguments]),
      ranked (.level .templateCall) (seq [
        field .function (oneOf [primaryExpression, newExpression]),
        field .arguments templateString]),
      ranked (.level .member) (seq [
        field .function primaryExpression, "?.", field .typeArguments (opt typeArguments),
        field .arguments arguments])]
  | .newExpression =>
    rightward (.level .construction) (seq [
      "new", field .callee primaryExpression, field .typeArguments (opt typeArguments),
      field .arguments (opt arguments)])
  | .awaitExpression => ranked (.level .unaryWord) (seq ["await", expression])
  | .memberExpression =>
    ranked (.level .member) (seq [
      field .object (oneOf [expression, primaryExpression, importWord]),
      oneOf [".", field .optionalChain optionalChain],
      field .property (oneOf [privateName, named .propertyIdentifier identifier])])
  | .subscriptExpression =>
    rightward (.level .member) (seq [
      field .object (oneOf [expression, primaryExpression]),
      opt (field .optionalChain optionalChain), "[", field .index expressions, "]"])
  | .assignmentExpression =>
    rightward (.level .assignment) (seq [
      opt "using", field .left (oneOf [parenthesizedExpression, assignable]), "=",
      field .right expression])
  | .augmentedTarget =>
    oneOf [
      memberExpression, subscriptExpression, named .identifier softKeyword, identifier,
      parenthesizedExpression, nonNullExpression]
  | .augmentedAssignment =>
    rightward (.level .assignment) (seq [
      field .left augmentedTarget,
      field .operator (oneOf [
        "+=", "-=", "*=", "/=", "%=", "^=", "&=", "|=", ">>=", ">>>=", "<<=", "**=", "&&=", "||=",
        "??="]),
      field .right expression])
  | .initializer => seq ["=", field .value expression]
  | .destructuringPattern => oneOf [objectPattern, arrayPattern]
  | .spreadElement => seq ["...", expression]
  | .ternaryExpression =>
    rightward (.level .ternary) (seq [
      field .condition expression, named (.mark "?") ternaryMark, field .consequence expression,
      ":", field .alternative expression])
  | .binaryExpression =>
    oneOf [
      operation .logicalAnd "&&", operation .logicalOr "||", operation .shift ">>",
      operation .shift ">>>", operation .shift "<<", operation .bitAnd "&", operation .bitXor "^",
      operation .bitOr "|", operation .plus "+", operation .plus "-", operation .times "*",
      operation .times "/", operation .times "%",
      rightward (.level .power) (seq [
        field .left expression, field .operator "**", field .right expression]),
      operation .relation "<", operation .relation "<=", operation .equality "==",
      operation .equality "===", operation .equality "!=", operation .equality "!==",
      operation .relation ">=", operation .relation ">", operation .ternary "??",
      operation .relation "instanceof",
      leftward (.level .relation) (seq [
        field .left (oneOf [expression, privateName]), field .operator "in",
        field .right expression])]
  | .unaryExpression =>
    leftward (.level .unaryWord) (seq [
      field .operator (oneOf ["!", "~", "-", "+", "typeof", "void", "delete"]),
      field .argument expression])
  | .updateExpression =>
    leftward .zero (oneOf [
      seq [field .argument expression, field .operator (oneOf ["++", "--"])],
      seq [field .operator (oneOf ["++", "--"]), field .argument expression]])
  | .sequenceExpression => rightward .zero (commaList expression)
  | .stringLiteral =>
    oneOf [
      seq ["\"", many (oneOf [named .stringFragment doubleText, escape]), "\""],
      seq ["'", many (oneOf [named .stringFragment singleText, escape]), "'"]]
  | .templateString =>
    seq [
      "\x60", many (oneOf [named .stringFragment templateText, escape, templateSubstitution]),
      "\x60"]
  | .templateSubstitution => seq ["$\x7b", expressions, "\x7d"]
  | .regex => seq ["/", field .pattern regexBody, regexEnd, opt (field .flags regexFlags)]
  | .metaProperty => oneOf [seq ["new", ".", "target"], seq ["import", ".", "meta"]]
  | .arguments => seq ["(", opt (commaList (opt (oneOf [expression, spreadElement]))), ")"]
  | .decorator =>
    seq [
      "@",
      oneOf [
        identifier, named .memberExpression decoratorMember, named .callExpression decoratorCall,
        named .parenthesizedExpression decoratorParenthesized]]
  | .decoratorMember =>
    ranked (.level .member) (seq [
      field .object (oneOf [identifier, named .memberExpression decoratorMember]), ".",
      field .property (named .propertyIdentifier identifier)])
  | .decoratorCall =>
    ranked (.level .call) (seq [
      field .function (oneOf [identifier, named .memberExpression decoratorMember]),
      opt (field .typeArguments typeArguments), field .arguments arguments])
  | .classBody =>
    seq [
      "\x7b",
      many (oneOf [
        seq [many (field .decorator decorator), methodDefinition, opt terminator],
        seq [methodSignature, oneOf [signatureSemicolon, ","]], classStaticBlock,
        seq [
          oneOf [abstractMethodSignature, indexSignature, methodSignature, publicFieldDefinition],
          oneOf [terminator, ","]],
        ";"]),
      "\x7d"]
  | .formalParameters => seq ["(", opt (seq [commaList formalParameter, opt ","]), ")"]
  | .classStaticBlock => seq ["static", field .body statementBlock]
  | .pattern => weighted (-1) (oneOf [assignable, restPattern])
  | .restPattern => rightward .zero (seq ["...", assignable])
  | .methodDefinition =>
    leftward .zero (seq [
      opt accessibilityModifier, opt "static", opt overrideModifier, opt "readonly", opt "async",
      opt (oneOf ["get", "set", "*"]), field .name propertyName, opt "?", signature,
      field .body statementBlock])
  | .pairElement => seq [field .key propertyName, ":", field .value expression]
  | .pairPattern =>
    seq [field .key propertyName, ":", field .value (oneOf [pattern, assignmentPattern])]
  | .propertyName =>
    oneOf [
      named .propertyIdentifier (oneOf [identifier, softKeyword]), privateName, stringLiteral,
      number, computedPropertyName]
  | .computedPropertyName => seq ["[", expression, "]"]
  | .publicFieldDefinition =>
    seq [
      many (field .decorator decorator),
      opt (oneOf [
        seq ["declare", opt accessibilityModifier], seq [accessibilityModifier, opt "declare"]]),
      opt (oneOf [
        seq [opt "static", opt overrideModifier, opt "readonly"],
        seq [opt "abstract", opt "readonly"], seq [opt "readonly", opt "abstract"], "accessor"]),
      field .name propertyName, opt (oneOf ["?", "!"]), field .type (opt typeAscription),
      opt initializer]
  | .importIdentifier => oneOf [identifier, named .identifier "type"]
  | .nonNullExpression => leftward (.level .unary) (seq [expression, "!"])
  | .methodSignature =>
    seq [
      opt accessibilityModifier, opt "static", opt overrideModifier, opt "readonly", opt "async",
      opt (oneOf ["get", "set", "*"]), field .name propertyName, opt "?", signature]
  | .abstractMethodSignature =>
    seq [
      opt accessibilityModifier, "abstract", opt overrideModifier, opt (oneOf ["get", "set", "*"]),
      field .name propertyName, opt "?", signature]
  | .functionSignature =>
    seq [
      opt "async", "function", field .name identifier, signature,
      oneOf [terminator, signatureSemicolon]]
  | .decoratorParenthesized =>
    seq [
      "(",
      oneOf [
        identifier, named .memberExpression decoratorMember, named .callExpression decoratorCall],
      ")"]
  | .typeAssertion => leftward (.level .unary) (seq [typeArguments, expression])
  | .asExpression =>
    leftward (.level .binary) (seq [expression, "as", oneOf ["const", typeExpression]])
  | .satisfiesExpression =>
    leftward (.level .binary) (seq [expression, "satisfies", typeExpression])
  | .instantiationExpression =>
    ranked (.level .instantiation) (seq [expression, field .typeArguments typeArguments])
  | .importRequireClause => seq [identifier, "=", "require", "(", field .source stringLiteral, ")"]
  | .extendsClause => seq ["extends", commaList extendsItem]
  | .extendsItem =>
    ranked (.level .extending) (seq [
      field .value expression, field .typeArguments (opt typeArguments)])
  | .implementsClause => seq ["implements", commaList typeExpression]
  | .ambientDeclaration =>
    seq [
      "declare",
      oneOf [
        declaration, seq ["global", statementBlock],
        seq ["module", ".", named .propertyIdentifier identifier, ":", typeExpression, terminator]]]
  | .abstractClassDeclaration =>
    ranked (.level .declaring) (seq [
      many (field .decorator decorator), "abstract", "class", field .name typeName,
      field .typeParameters (opt typeParameters), opt classHeritage, field .body classBody])
  | .moduleDeclaration => seq ["module", moduleBody]
  | .internalModule => seq ["namespace", moduleBody]
  | .moduleBody =>
    rightward .zero (seq [
      field .name (oneOf [stringLiteral, identifier, nestedIdentifier]),
      field .body (opt statementBlock)])
  | .importAlias =>
    seq ["import", identifier, "=", oneOf [identifier, nestedIdentifier], terminator]
  | .nestedIdentifier =>
    ranked (.level .member) (seq [
      field .object (oneOf [identifier, named .memberExpression nestedIdentifier]), ".",
      field .property (named .propertyIdentifier identifier)])
  | .nestedTypeIdentifier =>
    ranked (.level .member) (seq [
      field .qualifier (oneOf [identifier, nestedIdentifier]), ".", field .name typeName])
  | .interfaceDeclaration =>
    seq [
      "interface", field .name typeName, field .typeParameters (opt typeParameters),
      opt extendsTypeClause, field .body (named .interfaceBody objectType)]
  | .extendsTypeClause =>
    seq ["extends", commaList (field .type (oneOf [typeName, nestedTypeIdentifier, genericType]))]
  | .enumDeclaration => seq [opt "const", "enum", field .name identifier, field .body enumBody]
  | .enumBody =>
    seq [
      "\x7b", opt (seq [commaList (oneOf [field .name propertyName, enumAssignment]), opt ","]),
      "\x7d"]
  | .enumAssignment => seq [field .name propertyName, initializer]
  | .typeAliasDeclaration =>
    seq [
      "type", field .name typeName, field .typeParameters (opt typeParameters), "=",
      field .value typeExpression, terminator]
  | .accessibilityModifier => oneOf ["public", "private", "protected"]
  | .overrideModifier => "override"
  | .requiredParameter => seq [parameterName, field .type (opt typeAscription), opt initializer]
  | .optionalParameter =>
    seq [parameterName, "?", field .type (opt typeAscription), opt initializer]
  | .parameterName =>
    seq [
      many (field .decorator decorator), opt accessibilityModifier, opt overrideModifier,
      opt "readonly", field .pattern (oneOf [pattern, "this"])]
  | .omittingTypeAscription => seq ["-?:", typeExpression]
  | .addingTypeAscription => seq ["+?:", typeExpression]
  | .optingTypeAscription => seq ["?:", typeExpression]
  | .typeAscription => seq [":", typeExpression]
  | .queryMemberInAscription =>
    seq [
      field .object (oneOf [
        importWord, named .memberExpression queryMemberInAscription,
        named .callExpression queryCallInAscription]),
      ".", field .property (oneOf [privateName, named .propertyIdentifier identifier])]
  | .queryCallInAscription =>
    seq [
      field .function (oneOf [importWord, named .memberExpression queryMemberInAscription]),
      field .arguments arguments]
  | .asserts => seq ["asserts", oneOf [typePredicate, identifier, "this"]]
  | .assertsAscription => seq [":", asserts]
  | .typeExpression =>
    oneOf [
      primaryType, functionType, readonlyType, constructorType, inferType,
      ranked (.number (-1)) (named .memberExpression queryMemberInAscription),
      ranked (.number (-1)) (named .callExpression queryCallInAscription)]
  | .tupleParameter =>
    seq [field .name (oneOf [identifier, restPattern]), field .type typeAscription]
  | .optionalTupleParameter => seq [field .name identifier, "?", field .type typeAscription]
  | .optionalType => seq [typeExpression, "?"]
  | .restType => seq ["...", typeExpression]
  | .tupleMember =>
    oneOf [
      named .requiredParameter tupleParameter, named .optionalParameter optionalTupleParameter,
      optionalType, restType, typeExpression]
  | .constructorType =>
    leftward .zero (seq [
      opt "abstract", "new", field .typeParameters (opt typeParameters),
      field .parameters formalParameters, "=>", field .type typeExpression])
  | .primaryType =>
    oneOf [
      parenthesizedType, predefinedType, typeName, nestedTypeIdentifier, genericType, objectType,
      arrayType, tupleType, maybeType, typeQuery, indexTypeQuery, named .thisType "this",
      existentialType, literalType, lookupType, conditionalType, templateLiteralType,
      intersectionType, unionType, "const"]
  | .templateType => seq ["$\x7b", oneOf [primaryType, inferType], "\x7d"]
  | .templateLiteralType =>
    seq ["\x60", many (oneOf [named .stringFragment templateText, templateType]), "\x60"]
  | .inferType => rightward .zero (seq ["infer", typeName, opt (seq ["extends", typeExpression])])
  | .conditionalType =>
    rightward .zero (seq [
      field .left typeExpression, "extends", field .right typeExpression, "?",
      field .consequence typeExpression, ":", field .alternative typeExpression])
  | .genericType =>
    ranked (.level .call) (seq [
      field .name (oneOf [typeName, nestedTypeIdentifier]), field .typeArguments typeArguments])
  | .typePredicate =>
    seq [
      field .name (oneOf [identifier, "this", named .identifier predefinedType]), "is",
      field .type typeExpression]
  | .typePredicateAscription => seq [":", typePredicate]
  | .queryMember =>
    seq [
      field .object (oneOf [
        identifier, "this", named .subscriptExpression querySubscript,
        named .memberExpression queryMember, named .callExpression queryCall]),
      oneOf [".", "?."],
      field .property (oneOf [privateName, named .propertyIdentifier identifier])]
  | .querySubscript =>
    seq [
      field .object (oneOf [
        identifier, "this", named .subscriptExpression querySubscript,
        named .memberExpression queryMember, named .callExpression queryCall]),
      opt "?.", "[", field .index (oneOf [predefinedType, stringLiteral, number]), "]"]
  | .queryCall =>
    seq [
      field .function (oneOf [
        importWord, identifier, named .memberExpression queryMember,
        named .subscriptExpression querySubscript]),
      field .arguments arguments]
  | .queryInstantiation =>
    seq [
      field .function (oneOf [
        importWord, identifier, named .memberExpression queryMember,
        named .subscriptExpression querySubscript]),
      field .typeArguments typeArguments]
  | .typeQuery =>
    rightward .zero (seq [
      "typeof",
      oneOf [
        named .subscriptExpression querySubscript, named .memberExpression queryMember,
        named .callExpression queryCall, named .instantiationExpression queryInstantiation,
        identifier, "this"]])
  | .indexTypeQuery => seq ["keyof", primaryType]
  | .lookupType => seq [primaryType, "[", typeExpression, "]"]
  | .mappedTypeClause =>
    seq [
      field .name typeName, "in", field .type typeExpression,
      opt (seq ["as", field .newName typeExpression])]
  | .literalType =>
    oneOf [
      named .unaryExpression signedNumber, number, stringLiteral, "true", "false", "null",
      "undefined"]
  | .signedNumber =>
    leftward (.number 1) (seq [field .operator (oneOf ["-", "+"]), field .argument number])
  | .existentialType => "*"
  | .maybeType => rightward .zero (seq ["?", primaryType])
  | .parenthesizedType => seq ["(", typeExpression, ")"]
  | .predefinedType =>
    oneOf [
      "any", "number", "boolean", "string", "symbol",
      named (.mark "unique symbol") (seq ["unique", "symbol"]), "void", "unknown", "string",
      "never", "object"]
  | .typeArguments => seq ["<", commaList typeExpression, opt ",", ">"]
  | .objectType =>
    seq [
      oneOf ["\x7b", "\x7b|"],
      opt (seq [
        opt (oneOf [",", ";"]),
        typeMember,
        many (seq [oneOf [",", terminator], typeMember]),
        opt (oneOf [",", terminator])]),
      oneOf ["\x7d", "|\x7d"]]
  | .callSignature => signature
  | .propertySignature =>
    seq [
      opt accessibilityModifier, opt "static", opt overrideModifier, opt "readonly",
      field .name propertyName, opt "?", field .type (opt typeAscription)]
  | .typeParameters => seq ["<", commaList typeParameter, opt ",", ">"]
  | .typeParameter =>
    seq [
      opt "const", field .name typeName, field .constraint (opt constraint),
      field .value (opt defaultType)]
  | .defaultType => seq ["=", typeExpression]
  | .constraint => seq [oneOf ["extends", ":"], typeExpression]
  | .constructSignature =>
    seq [
      opt "abstract", "new", field .typeParameters (opt typeParameters),
      field .parameters formalParameters, field .type (opt typeAscription)]
  | .indexSignature =>
    seq [
      opt (seq [field .sign (opt (oneOf ["-", "+"])), "readonly"]), "[",
      oneOf [
        seq [
          field .name (oneOf [identifier, named .identifier softKeyword]), ":",
          field .indexType typeExpression],
        mappedTypeClause],
      "]",
      field .type (oneOf [
        typeAscription, omittingTypeAscription, addingTypeAscription, optingTypeAscription])]
  | .arrayType => seq [primaryType, "[", "]"]
  | .tupleType => seq ["[", opt (commaList tupleMember), opt ",", "]"]
  | .readonlyType => seq ["readonly", typeExpression]
  | .unionType => leftward .zero (seq [opt typeExpression, "|", typeExpression])
  | .intersectionType => leftward .zero (seq [opt typeExpression, "&", typeExpression])
  | .functionType =>
    leftward .zero (seq [
      field .typeParameters (opt typeParameters), field .parameters formalParameters, "=>",
      field .returnType (oneOf [typeExpression, asserts, typePredicate])])

/-- A level or a category that may win over another one. -/
inductive Rank where
  | level (l : Level)
  | category (c : Category)
deriving DecidableEq, Repr

namespace Rank

instance : Coe Level Rank := ⟨.level⟩

instance : Coe Category Rank := ⟨.category⟩

end Rank

open Level in
/-- What wins over what: each list starts with the strongest. -/
def rankings : List (List Rank) :=
  let operators : List (List Rank) :=
    [[member, templateCall, call, updateExpression, unaryWord, power, times, plus, Level.shift,
        relation, equality, bitAnd, bitXor, bitOr, logicalAnd, logicalOr, ternary,
        sequenceExpression, arrowFunction],
      [assignment, primaryExpression],
      [member, templateCall, construction, call, expression],
      [declaring, Level.literal],
      [primaryExpression, statementBlock, Level.object],
      [metaProperty, importWord],
      [importStatement, importWord],
      [exportStatement, primaryExpression],
      [lexicalDeclaration, primaryExpression],
      [call, instantiation, unary, binary, awaitExpression, arrowFunction],
      [extending, instantiation]]
  let types : List (List Rank) :=
    [[intersectionType, unionType, conditionalType, functionType, binary, typePredicate,
        readonlyType],
      [mappedTypeClause, primaryExpression],
      [accessibilityModifier, primaryExpression],
      [unaryWord, expression],
      [extendsClause, primaryExpression],
      [unary, assignment],
      [declaring, expression],
      [predefinedType, unaryExpression],
      [typeExpression, maybeType],
      [tupleType, arrayType, Category.pattern, typeExpression],
      [readonlyType, Category.pattern],
      [readonlyType, primaryExpression],
      [typeQuery, subscriptExpression, expression],
      [typeQuery, querySubscript],
      [nestedTypeIdentifier, genericType, primaryType, lookupType, indexTypeQuery, typeExpression],
      [asExpression, satisfiesExpression, primaryType]]
  let queries : List (List Rank) :=
    [[queryMember, memberExpression],
      [memberExpression, queryMemberInAscription],
      [queryMember, primaryExpression],
      [querySubscript, subscriptExpression],
      [querySubscript, primaryExpression],
      [queryCall, primaryExpression],
      [queryInstantiation, primaryExpression],
      [typeQuery, primaryExpression],
      [overrideModifier, primaryExpression],
      [decoratorCall, Category.decorator],
      [literalType, Category.pattern],
      [predefinedType, Category.pattern],
      [callExpression, queryCall],
      [callExpression, queryCallInAscription],
      [newExpression, primaryExpression],
      [metaProperty, primaryExpression],
      [constructSignature, propertyName]]
  operators ++ types ++ queries

end Category

end TypeDiagram.Source
