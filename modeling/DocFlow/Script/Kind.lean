namespace DocFlow.Script

inductive NodeType where
  | program
  | hashBangLine
  | comment
  | htmlComment
  | exportStatement
  | namespaceExport
  | exportClause
  | exportSpecifier
  | importStatement
  | importClause
  | namespaceImport
  | namedImports
  | importSpecifier
  | importAttribute
  | importKeyword
  | expressionStatement
  | variableDeclaration
  | lexicalDeclaration
  | variableDeclarator
  | statementBlock
  | elseClause
  | ifStatement
  | switchStatement
  | switchBody
  | switchCase
  | switchDefault
  | forStatement
  | forInStatement
  | whileStatement
  | doStatement
  | tryStatement
  | catchClause
  | finallyClause
  | withStatement
  | breakStatement
  | continueStatement
  | debuggerStatement
  | returnStatement
  | throwStatement
  | emptyStatement
  | labeledStatement
  | statementIdentifier
  | parenthesizedExpression
  | sequenceExpression
  | yieldExpression
  | awaitExpression
  | unaryExpression
  | updateExpression
  | binaryExpression
  | ternaryExpression
  | assignmentExpression
  | augmentedAssignmentExpression
  | newExpression
  | callExpression
  | memberExpression
  | subscriptExpression
  | optionalChain
  | arguments
  | spreadElement
  | object
  | pair
  | pairPattern
  | objectPattern
  | objectAssignmentPattern
  | shorthandPropertyIdentifier
  | shorthandPropertyIdentifierPattern
  | array
  | arrayPattern
  | assignmentPattern
  | restPattern
  | computedPropertyName
  | propertyIdentifier
  | privatePropertyIdentifier
  | classExpression
  | classDeclaration
  | classHeritage
  | classBody
  | fieldDefinition
  | methodDefinition
  | classStaticBlock
  | decorator
  | functionExpression
  | functionDeclaration
  | generatorFunction
  | generatorFunctionDeclaration
  | arrowFunction
  | formalParameters
  | metaProperty
  | thisExpression
  | superExpression
  | trueLiteral
  | falseLiteral
  | nullLiteral
  | undefinedLiteral
  | identifier
  | number
  | string
  | stringFragment
  | escapeSequence
  | templateString
  | templateSubstitution
  | regex
  | regexPattern
  | regexFlags
  | jsxElement
  | jsxOpeningElement
  | jsxClosingElement
  | jsxSelfClosingElement
  | jsxAttribute
  | jsxExpression
  | jsxText
  | jsxNamespaceName
  | htmlCharacterReference
  /-- Text that fits no rule. -/
  | error
  deriving DecidableEq, Repr

def NodeType.name : NodeType → String
  | .program => "program"
  | .hashBangLine => "hash_bang_line"
  | .comment => "comment"
  | .htmlComment => "html_comment"
  | .exportStatement => "export_statement"
  | .namespaceExport => "namespace_export"
  | .exportClause => "export_clause"
  | .exportSpecifier => "export_specifier"
  | .importStatement => "import_statement"
  | .importClause => "import_clause"
  | .namespaceImport => "namespace_import"
  | .namedImports => "named_imports"
  | .importSpecifier => "import_specifier"
  | .importAttribute => "import_attribute"
  | .importKeyword => "import"
  | .expressionStatement => "expression_statement"
  | .variableDeclaration => "variable_declaration"
  | .lexicalDeclaration => "lexical_declaration"
  | .variableDeclarator => "variable_declarator"
  | .statementBlock => "statement_block"
  | .elseClause => "else_clause"
  | .ifStatement => "if_statement"
  | .switchStatement => "switch_statement"
  | .switchBody => "switch_body"
  | .switchCase => "switch_case"
  | .switchDefault => "switch_default"
  | .forStatement => "for_statement"
  | .forInStatement => "for_in_statement"
  | .whileStatement => "while_statement"
  | .doStatement => "do_statement"
  | .tryStatement => "try_statement"
  | .catchClause => "catch_clause"
  | .finallyClause => "finally_clause"
  | .withStatement => "with_statement"
  | .breakStatement => "break_statement"
  | .continueStatement => "continue_statement"
  | .debuggerStatement => "debugger_statement"
  | .returnStatement => "return_statement"
  | .throwStatement => "throw_statement"
  | .emptyStatement => "empty_statement"
  | .labeledStatement => "labeled_statement"
  | .statementIdentifier => "statement_identifier"
  | .parenthesizedExpression => "parenthesized_expression"
  | .sequenceExpression => "sequence_expression"
  | .yieldExpression => "yield_expression"
  | .awaitExpression => "await_expression"
  | .unaryExpression => "unary_expression"
  | .updateExpression => "update_expression"
  | .binaryExpression => "binary_expression"
  | .ternaryExpression => "ternary_expression"
  | .assignmentExpression => "assignment_expression"
  | .augmentedAssignmentExpression => "augmented_assignment_expression"
  | .newExpression => "new_expression"
  | .callExpression => "call_expression"
  | .memberExpression => "member_expression"
  | .subscriptExpression => "subscript_expression"
  | .optionalChain => "optional_chain"
  | .arguments => "arguments"
  | .spreadElement => "spread_element"
  | .object => "object"
  | .pair => "pair"
  | .pairPattern => "pair_pattern"
  | .objectPattern => "object_pattern"
  | .objectAssignmentPattern => "object_assignment_pattern"
  | .shorthandPropertyIdentifier => "shorthand_property_identifier"
  | .shorthandPropertyIdentifierPattern => "shorthand_property_identifier_pattern"
  | .array => "array"
  | .arrayPattern => "array_pattern"
  | .assignmentPattern => "assignment_pattern"
  | .restPattern => "rest_pattern"
  | .computedPropertyName => "computed_property_name"
  | .propertyIdentifier => "property_identifier"
  | .privatePropertyIdentifier => "private_property_identifier"
  | .classExpression => "class"
  | .classDeclaration => "class_declaration"
  | .classHeritage => "class_heritage"
  | .classBody => "class_body"
  | .fieldDefinition => "field_definition"
  | .methodDefinition => "method_definition"
  | .classStaticBlock => "class_static_block"
  | .decorator => "decorator"
  | .functionExpression => "function_expression"
  | .functionDeclaration => "function_declaration"
  | .generatorFunction => "generator_function"
  | .generatorFunctionDeclaration => "generator_function_declaration"
  | .arrowFunction => "arrow_function"
  | .formalParameters => "formal_parameters"
  | .metaProperty => "meta_property"
  | .thisExpression => "this"
  | .superExpression => "super"
  | .trueLiteral => "true"
  | .falseLiteral => "false"
  | .nullLiteral => "null"
  | .undefinedLiteral => "undefined"
  | .identifier => "identifier"
  | .number => "number"
  | .string => "string"
  | .stringFragment => "string_fragment"
  | .escapeSequence => "escape_sequence"
  | .templateString => "template_string"
  | .templateSubstitution => "template_substitution"
  | .regex => "regex"
  | .regexPattern => "regex_pattern"
  | .regexFlags => "regex_flags"
  | .jsxElement => "jsx_element"
  | .jsxOpeningElement => "jsx_opening_element"
  | .jsxClosingElement => "jsx_closing_element"
  | .jsxSelfClosingElement => "jsx_self_closing_element"
  | .jsxAttribute => "jsx_attribute"
  | .jsxExpression => "jsx_expression"
  | .jsxText => "jsx_text"
  | .jsxNamespaceName => "jsx_namespace_name"
  | .htmlCharacterReference => "html_character_reference"
  | .error => "ERROR"

/-- A node is named, or is a token of the language that stands for itself. -/
inductive Kind where
  | named (type : NodeType)
  | token (text : String)
  deriving DecidableEq, Repr

def Kind.name : Kind → String
  | .named t => t.name
  | .token text => text

/-- What a child is to its parent. -/
inductive Role where
  | alias
  | alternative
  | argument
  | arguments
  | markupAttribute
  | body
  | closeTag
  | condition
  | consequence
  | constructor
  | declaration
  | decorator
  | finalizer
  | flags
  | function
  | handler
  | increment
  | index
  | initializer
  | key
  | kind
  | label
  | left
  | member
  | name
  | object
  | openTag
  | operator
  | optionalChain
  | parameter
  | parameters
  | pattern
  | property
  | right
  | source
  | value
  deriving DecidableEq, Repr

end DocFlow.Script
