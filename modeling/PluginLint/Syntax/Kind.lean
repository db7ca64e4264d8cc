/-!
# Kinds of nodes, tokens and trivia

The kinds are closed sets: rules name the kinds of node they look at, and nothing else decides
where they run.
-/
namespace PluginLint

/-- The kind of an inner node of a syntax tree. -/
inductive NodeKind where
  -- Compilation structure
  | compilationUnit | usingDirective | namespaceDeclaration | fileScopedNamespaceDeclaration
  -- Type declarations
  | classDeclaration | structDeclaration | interfaceDeclaration | recordDeclaration
  | recordStructDeclaration | enumDeclaration | enumMemberDeclaration | delegateDeclaration
  | attributeList | baseList | simpleBaseType | typeParameterList | typeParameter
  | typeParameterConstraintClause
  -- Members
  | fieldDeclaration | propertyDeclaration | indexerDeclaration | accessorList
  | accessorDeclaration | eventDeclaration | methodDeclaration | operatorDeclaration
  | constructorDeclaration | destructorDeclaration | explicitInterfaceSpecifier
  | constructorInitializer | parameterList | bracketedParameterList | parameter
  | equalsValueClause | arrowExpressionClause | variableDeclaration | variableDeclarator
  -- Statements
  | block | localDeclarationStatement | localFunctionStatement | expressionStatement
  | emptyStatement | ifStatement | elseClause | forStatement | forEachStatement | whileStatement
  | doStatement | returnStatement | throwStatement | breakStatement | continueStatement
  | yieldReturnStatement | yieldBreakStatement | gotoStatement | labeledStatement
  | checkedStatement | unsafeStatement | fixedStatement | tryStatement | catchClause
  | catchDeclaration | catchFilterClause | finallyClause | usingStatement | lockStatement
  | switchStatement | switchSection | caseSwitchLabel | defaultSwitchLabel
  -- Expressions
  | numericLiteralExpression | stringLiteralExpression | characterLiteralExpression
  | interpolatedStringExpression | trueLiteralExpression | falseLiteralExpression
  | nullLiteralExpression | defaultLiteralExpression | identifierName | genericName
  | thisExpression | baseExpression | simpleMemberAccessExpression | conditionalAccessExpression
  | invocationExpression | elementAccessExpression | argumentList | bracketedArgumentList
  | argument | nameColon | objectCreationExpression | implicitObjectCreationExpression
  | anonymousObjectCreationExpression | arrayCreationExpression | implicitArrayCreationExpression
  | initializerExpression | collectionExpression | simpleAssignmentExpression
  | compoundAssignmentExpression | binaryExpression | asExpression | isPatternExpression
  | pattern | prefixUnaryExpression | postfixUnaryExpression | conditionalExpression
  | castExpression | parenthesizedExpression | tupleExpression | awaitExpression
  | simpleLambdaExpression | parenthesizedLambdaExpression | typeOfExpression | defaultExpression
  | throwExpression | declarationExpression | switchExpression | switchExpressionArm
  | withExpression | rangeExpression | checkedExpression | sizeOfExpression
  -- Type syntax
  | qualifiedName | typeArgumentList | predefinedType | nullableType | arrayType
  | arrayRankSpecifier | tupleType
  -- Recovery
  | error
  deriving DecidableEq, Repr, Inhabited

namespace NodeKind

/-- Every kind of node, in the order of declaration. -/
def all : List NodeKind :=
  [.compilationUnit, .usingDirective, .namespaceDeclaration, .fileScopedNamespaceDeclaration,
   .classDeclaration, .structDeclaration, .interfaceDeclaration, .recordDeclaration,
   .recordStructDeclaration, .enumDeclaration, .enumMemberDeclaration, .delegateDeclaration,
   .attributeList, .baseList, .simpleBaseType, .typeParameterList, .typeParameter,
   .typeParameterConstraintClause, .fieldDeclaration, .propertyDeclaration, .indexerDeclaration,
   .accessorList, .accessorDeclaration, .eventDeclaration, .methodDeclaration,
   .operatorDeclaration, .constructorDeclaration, .destructorDeclaration,
   .explicitInterfaceSpecifier, .constructorInitializer, .parameterList, .bracketedParameterList,
   .parameter, .equalsValueClause, .arrowExpressionClause, .variableDeclaration,
   .variableDeclarator, .block, .localDeclarationStatement, .localFunctionStatement,
   .expressionStatement, .emptyStatement, .ifStatement, .elseClause, .forStatement,
   .forEachStatement, .whileStatement, .doStatement, .returnStatement, .throwStatement,
   .breakStatement, .continueStatement, .yieldReturnStatement, .yieldBreakStatement,
   .gotoStatement, .labeledStatement, .checkedStatement, .unsafeStatement, .fixedStatement,
   .tryStatement, .catchClause, .catchDeclaration, .catchFilterClause, .finallyClause,
   .usingStatement, .lockStatement, .switchStatement, .switchSection, .caseSwitchLabel,
   .defaultSwitchLabel, .numericLiteralExpression, .stringLiteralExpression,
   .characterLiteralExpression, .interpolatedStringExpression, .trueLiteralExpression,
   .falseLiteralExpression, .nullLiteralExpression, .defaultLiteralExpression, .identifierName,
   .genericName, .thisExpression, .baseExpression, .simpleMemberAccessExpression,
   .conditionalAccessExpression, .invocationExpression, .elementAccessExpression, .argumentList,
   .bracketedArgumentList, .argument, .nameColon, .objectCreationExpression,
   .implicitObjectCreationExpression, .anonymousObjectCreationExpression,
   .arrayCreationExpression, .implicitArrayCreationExpression, .initializerExpression,
   .collectionExpression, .simpleAssignmentExpression, .compoundAssignmentExpression,
   .binaryExpression, .asExpression, .isPatternExpression, .pattern, .prefixUnaryExpression,
   .postfixUnaryExpression, .conditionalExpression, .castExpression, .parenthesizedExpression,
   .tupleExpression, .awaitExpression, .simpleLambdaExpression, .parenthesizedLambdaExpression,
   .typeOfExpression, .defaultExpression, .throwExpression, .declarationExpression,
   .switchExpression, .switchExpressionArm, .withExpression, .rangeExpression,
   .checkedExpression, .sizeOfExpression, .qualifiedName, .typeArgumentList, .predefinedType,
   .nullableType, .arrayType, .arrayRankSpecifier, .tupleType, .error]

/-- The name under which a kind is shown. -/
def name : NodeKind → String
  | .compilationUnit => "CompilationUnit"
  | .usingDirective => "UsingDirective"
  | .namespaceDeclaration => "NamespaceDeclaration"
  | .fileScopedNamespaceDeclaration => "FileScopedNamespaceDeclaration"
  | .classDeclaration => "ClassDeclaration"
  | .structDeclaration => "StructDeclaration"
  | .interfaceDeclaration => "InterfaceDeclaration"
  | .recordDeclaration => "RecordDeclaration"
  | .recordStructDeclaration => "RecordStructDeclaration"
  | .enumDeclaration => "EnumDeclaration"
  | .enumMemberDeclaration => "EnumMemberDeclaration"
  | .delegateDeclaration => "DelegateDeclaration"
  | .attributeList => "AttributeList"
  | .baseList => "BaseList"
  | .simpleBaseType => "SimpleBaseType"
  | .typeParameterList => "TypeParameterList"
  | .typeParameter => "TypeParameter"
  | .typeParameterConstraintClause => "TypeParameterConstraintClause"
  | .fieldDeclaration => "FieldDeclaration"
  | .propertyDeclaration => "PropertyDeclaration"
  | .indexerDeclaration => "IndexerDeclaration"
  | .accessorList => "AccessorList"
  | .accessorDeclaration => "AccessorDeclaration"
  | .eventDeclaration => "EventDeclaration"
  | .methodDeclaration => "MethodDeclaration"
  | .operatorDeclaration => "OperatorDeclaration"
  | .constructorDeclaration => "ConstructorDeclaration"
  | .destructorDeclaration => "DestructorDeclaration"
  | .explicitInterfaceSpecifier => "ExplicitInterfaceSpecifier"
  | .constructorInitializer => "ConstructorInitializer"
  | .parameterList => "ParameterList"
  | .bracketedParameterList => "BracketedParameterList"
  | .parameter => "Parameter"
  | .equalsValueClause => "EqualsValueClause"
  | .arrowExpressionClause => "ArrowExpressionClause"
  | .variableDeclaration => "VariableDeclaration"
  | .variableDeclarator => "VariableDeclarator"
  | .block => "Block"
  | .localDeclarationStatement => "LocalDeclarationStatement"
  | .localFunctionStatement => "LocalFunctionStatement"
  | .expressionStatement => "ExpressionStatement"
  | .emptyStatement => "EmptyStatement"
  | .ifStatement => "IfStatement"
  | .elseClause => "ElseClause"
  | .forStatement => "ForStatement"
  | .forEachStatement => "ForEachStatement"
  | .whileStatement => "WhileStatement"
  | .doStatement => "DoStatement"
  | .returnStatement => "ReturnStatement"
  | .throwStatement => "ThrowStatement"
  | .breakStatement => "BreakStatement"
  | .continueStatement => "ContinueStatement"
  | .yieldReturnStatement => "YieldReturnStatement"
  | .yieldBreakStatement => "YieldBreakStatement"
  | .gotoStatement => "GotoStatement"
  | .labeledStatement => "LabeledStatement"
  | .checkedStatement => "CheckedStatement"
  | .unsafeStatement => "UnsafeStatement"
  | .fixedStatement => "FixedStatement"
  | .tryStatement => "TryStatement"
  | .catchClause => "CatchClause"
  | .catchDeclaration => "CatchDeclaration"
  | .catchFilterClause => "CatchFilterClause"
  | .finallyClause => "FinallyClause"
  | .usingStatement => "UsingStatement"
  | .lockStatement => "LockStatement"
  | .switchStatement => "SwitchStatement"
  | .switchSection => "SwitchSection"
  | .caseSwitchLabel => "CaseSwitchLabel"
  | .defaultSwitchLabel => "DefaultSwitchLabel"
  | .numericLiteralExpression => "NumericLiteralExpression"
  | .stringLiteralExpression => "StringLiteralExpression"
  | .characterLiteralExpression => "CharacterLiteralExpression"
  | .interpolatedStringExpression => "InterpolatedStringExpression"
  | .trueLiteralExpression => "TrueLiteralExpression"
  | .falseLiteralExpression => "FalseLiteralExpression"
  | .nullLiteralExpression => "NullLiteralExpression"
  | .defaultLiteralExpression => "DefaultLiteralExpression"
  | .identifierName => "IdentifierName"
  | .genericName => "GenericName"
  | .thisExpression => "ThisExpression"
  | .baseExpression => "BaseExpression"
  | .simpleMemberAccessExpression => "SimpleMemberAccessExpression"
  | .conditionalAccessExpression => "ConditionalAccessExpression"
  | .invocationExpression => "InvocationExpression"
  | .elementAccessExpression => "ElementAccessExpression"
  | .argumentList => "ArgumentList"
  | .bracketedArgumentList => "BracketedArgumentList"
  | .argument => "Argument"
  | .nameColon => "NameColon"
  | .objectCreationExpression => "ObjectCreationExpression"
  | .implicitObjectCreationExpression => "ImplicitObjectCreationExpression"
  | .anonymousObjectCreationExpression => "AnonymousObjectCreationExpression"
  | .arrayCreationExpression => "ArrayCreationExpression"
  | .implicitArrayCreationExpression => "ImplicitArrayCreationExpression"
  | .initializerExpression => "InitializerExpression"
  | .collectionExpression => "CollectionExpression"
  | .simpleAssignmentExpression => "SimpleAssignmentExpression"
  | .compoundAssignmentExpression => "CompoundAssignmentExpression"
  | .binaryExpression => "BinaryExpression"
  | .asExpression => "AsExpression"
  | .isPatternExpression => "IsPatternExpression"
  | .pattern => "Pattern"
  | .prefixUnaryExpression => "PrefixUnaryExpression"
  | .postfixUnaryExpression => "PostfixUnaryExpression"
  | .conditionalExpression => "ConditionalExpression"
  | .castExpression => "CastExpression"
  | .parenthesizedExpression => "ParenthesizedExpression"
  | .tupleExpression => "TupleExpression"
  | .awaitExpression => "AwaitExpression"
  | .simpleLambdaExpression => "SimpleLambdaExpression"
  | .parenthesizedLambdaExpression => "ParenthesizedLambdaExpression"
  | .typeOfExpression => "TypeOfExpression"
  | .defaultExpression => "DefaultExpression"
  | .throwExpression => "ThrowExpression"
  | .declarationExpression => "DeclarationExpression"
  | .switchExpression => "SwitchExpression"
  | .switchExpressionArm => "SwitchExpressionArm"
  | .withExpression => "WithExpression"
  | .rangeExpression => "RangeExpression"
  | .checkedExpression => "CheckedExpression"
  | .sizeOfExpression => "SizeOfExpression"
  | .qualifiedName => "QualifiedName"
  | .typeArgumentList => "TypeArgumentList"
  | .predefinedType => "PredefinedType"
  | .nullableType => "NullableType"
  | .arrayType => "ArrayType"
  | .arrayRankSpecifier => "ArrayRankSpecifier"
  | .tupleType => "TupleType"
  | .error => "Error"

/-- The kind with a given name. -/
def ofName? (text : String) : Option NodeKind := all.find? fun k => k.name == text

/-- The children of a block. -/
def isStatement : NodeKind → Bool
  | .block | .localDeclarationStatement | .localFunctionStatement | .expressionStatement
  | .emptyStatement | .ifStatement | .forStatement | .forEachStatement | .whileStatement
  | .doStatement | .returnStatement | .throwStatement | .breakStatement | .continueStatement
  | .yieldReturnStatement | .yieldBreakStatement | .gotoStatement | .labeledStatement
  | .checkedStatement | .unsafeStatement | .fixedStatement | .tryStatement | .usingStatement
  | .lockStatement | .switchStatement => true
  | _ => false

/-- Declarations that introduce a type with members or values. -/
def isTypeDeclaration : NodeKind → Bool
  | .classDeclaration | .structDeclaration | .interfaceDeclaration | .recordDeclaration
  | .recordStructDeclaration | .enumDeclaration => true
  | _ => false

/-- What may stand where a type is expected. -/
def isType : NodeKind → Bool
  | .identifierName | .genericName | .qualifiedName | .predefinedType | .nullableType
  | .arrayType | .tupleType => true
  | _ => false

/-- A name without a qualifier, with or without type arguments. -/
def isSimpleName : NodeKind → Bool
  | .identifierName | .genericName => true
  | _ => false

/-- Literals. -/
def isLiteral : NodeKind → Bool
  | .numericLiteralExpression | .stringLiteralExpression | .characterLiteralExpression
  | .interpolatedStringExpression | .trueLiteralExpression | .falseLiteralExpression
  | .nullLiteralExpression | .defaultLiteralExpression => true
  | _ => false

/-- What may stand where a value is expected. -/
def isExpression : NodeKind → Bool
  | .numericLiteralExpression | .stringLiteralExpression | .characterLiteralExpression
  | .interpolatedStringExpression | .trueLiteralExpression | .falseLiteralExpression
  | .nullLiteralExpression | .defaultLiteralExpression | .identifierName | .genericName
  | .qualifiedName | .predefinedType | .thisExpression | .baseExpression
  | .simpleMemberAccessExpression | .conditionalAccessExpression | .invocationExpression
  | .elementAccessExpression | .objectCreationExpression | .implicitObjectCreationExpression
  | .anonymousObjectCreationExpression | .arrayCreationExpression
  | .implicitArrayCreationExpression | .initializerExpression | .collectionExpression
  | .simpleAssignmentExpression | .compoundAssignmentExpression | .binaryExpression
  | .asExpression | .isPatternExpression | .prefixUnaryExpression | .postfixUnaryExpression
  | .conditionalExpression | .castExpression | .parenthesizedExpression | .tupleExpression
  | .awaitExpression | .simpleLambdaExpression | .parenthesizedLambdaExpression
  | .typeOfExpression | .defaultExpression | .throwExpression | .declarationExpression
  | .switchExpression | .withExpression | .rangeExpression | .checkedExpression
  | .sizeOfExpression => true
  | _ => false

end NodeKind

/-- The kind of a token. Reserved words share one kind and are told apart by their text; words that
are reserved only in some places are identifiers. -/
inductive TokenKind where
  | identifier
  | keyword
  | numericLiteral
  | stringLiteral
  | charLiteral
  | interpolatedString
  | punct
  | endOfFile
  | unknown
  deriving DecidableEq, Repr, Inhabited

namespace TokenKind

def all : List TokenKind :=
  [.identifier, .keyword, .numericLiteral, .stringLiteral, .charLiteral, .interpolatedString,
   .punct, .endOfFile, .unknown]

def name : TokenKind → String
  | .identifier => "Identifier"
  | .keyword => "Keyword"
  | .numericLiteral => "NumericLiteral"
  | .stringLiteral => "StringLiteral"
  | .charLiteral => "CharLiteral"
  | .interpolatedString => "InterpolatedString"
  | .punct => "Punct"
  | .endOfFile => "EndOfFile"
  | .unknown => "Unknown"

def ofName? (text : String) : Option TokenKind := all.find? fun k => k.name == text

/-- Identifiers and the four kinds of literal text always start an expression. -/
def startsOperand : TokenKind → Bool
  | .identifier | .numericLiteral | .stringLiteral | .charLiteral | .interpolatedString => true
  | _ => false

end TokenKind

/-- The kind of a piece of text between tokens. -/
inductive TriviaKind where
  | whitespace
  | endOfLine
  | lineComment
  | blockComment
  | docComment
  | directive
  deriving DecidableEq, Repr, Inhabited

namespace TriviaKind

def all : List TriviaKind :=
  [.whitespace, .endOfLine, .lineComment, .blockComment, .docComment, .directive]

def name : TriviaKind → String
  | .whitespace => "Whitespace"
  | .endOfLine => "EndOfLine"
  | .lineComment => "LineComment"
  | .blockComment => "BlockComment"
  | .docComment => "DocComment"
  | .directive => "Directive"

def ofName? (text : String) : Option TriviaKind := all.find? fun k => k.name == text

/-- Comments of any flavour, documentation included. -/
def isComment : TriviaKind → Bool
  | .lineComment | .blockComment | .docComment => true
  | _ => false

end TriviaKind

end PluginLint
