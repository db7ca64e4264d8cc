/-!
# The text of the framework

The types that plugins are written against, as they are written themselves. Only signatures matter, so
no method has a body.
-/
namespace PluginLint.Binding.Framework

/-- What all the types see. -/
def importText : String :=
  "using System;\nusing System.Collections.Generic;\nusing Microsoft.Xrm.Sdk.Query;\n\n"

/-- Types of the language and of everyday code. -/
def systemText : String := "namespace System
\x7b
    public class Object
    \x7b
        public virtual string ToString();
        public virtual bool Equals(object obj);
        public virtual int GetHashCode();
        public Type GetType();
    \x7d

    public class String
    \x7b
        public static readonly string Empty;
        public int Length \x7b get; \x7d
        public char this[int index] \x7b get; \x7d
        public bool Contains(string value);
        public bool StartsWith(string value);
        public bool EndsWith(string value);
        public bool Equals(string value, StringComparison comparisonType);
        public string ToLower();
        public string ToLowerInvariant();
        public string ToUpper();
        public string Trim();
        public string Substring(int startIndex, int length = 0);
        public string Replace(string oldValue, string newValue);
        public string[] Split(params char[] separator);
        public static bool IsNullOrEmpty(string value);
        public static bool IsNullOrWhiteSpace(string value);
        public static string Format(string format, params object[] args);
        public static string Join(string separator, params object[] values);
    \x7d

    public enum StringComparison \x7b CurrentCulture, CurrentCultureIgnoreCase, InvariantCulture, InvariantCultureIgnoreCase, Ordinal, OrdinalIgnoreCase \x7d

    public struct Boolean \x7b public static bool Parse(string value); \x7d
    public struct Int32 \x7b public static int Parse(string s); public static bool TryParse(string s, out int result); \x7d
    public struct Int64 \x7b public static long Parse(string s); \x7d
    public struct Decimal \x7b public static decimal Parse(string s); \x7d
    public struct Double \x7b public static double Parse(string s); \x7d

    public struct Nullable<T> where T : struct
    \x7b
        public bool HasValue \x7b get; \x7d
        public T Value \x7b get; \x7d
        public T GetValueOrDefault();
    \x7d

    public abstract class Array \x7b public int Length \x7b get; \x7d \x7d
    public class Type \x7b public string Name \x7b get; \x7d public string FullName \x7b get; \x7d \x7d

    public class Exception
    \x7b
        public Exception();
        public Exception(string message);
        public Exception(string message, Exception innerException);
        public string Message \x7b get; \x7d
        public Exception InnerException \x7b get; \x7d
    \x7d

    public class ArgumentNullException : Exception \x7b public ArgumentNullException(string paramName); \x7d
    public class InvalidOperationException : Exception \x7b public InvalidOperationException(string message); \x7d

    public interface IServiceProvider \x7b object GetService(Type serviceType); \x7d
    public interface IDisposable \x7b void Dispose(); \x7d

    public struct Guid
    \x7b
        public static readonly Guid Empty;
        public static Guid NewGuid();
        public static Guid Parse(string input);
        public override string ToString();
    \x7d

    public struct DateTime
    \x7b
        public static DateTime Now \x7b get; \x7d
        public static DateTime UtcNow \x7b get; \x7d
        public static DateTime Today \x7b get; \x7d
        public DateTime AddDays(double value);
        public DateTime ToUniversalTime();
    \x7d
\x7d

"

/-- Collections. -/
def collectionText : String := "namespace System.Collections.Generic
\x7b
    public interface IEnumerable<T> \x7b \x7d
    public interface ICollection<T> : IEnumerable<T> \x7b int Count \x7b get; \x7d void Add(T item); bool Contains(T item); \x7d
    public interface IList<T> : ICollection<T> \x7b T this[int index] \x7b get; set; \x7d \x7d
    public struct KeyValuePair<TKey, TValue> \x7b public TKey Key \x7b get; \x7d public TValue Value \x7b get; \x7d \x7d

    public class List<T> : IList<T>
    \x7b
        public List();
        public List(IEnumerable<T> collection);
        public int Count \x7b get; \x7d
        public T this[int index] \x7b get; set; \x7d
        public void Add(T item);
        public void AddRange(IEnumerable<T> collection);
        public bool Contains(T item);
        public T[] ToArray();
    \x7d

    public class Dictionary<TKey, TValue> : ICollection<KeyValuePair<TKey, TValue>>
    \x7b
        public Dictionary();
        public int Count \x7b get; \x7d
        public TValue this[TKey key] \x7b get; set; \x7d
        public void Add(TKey key, TValue value);
        public bool ContainsKey(TKey key);
        public bool TryGetValue(TKey key, out TValue value);
        public bool Remove(TKey key);
    \x7d
\x7d

"

/-- Results that are awaited. -/
def taskText : String := "namespace System.Threading.Tasks
\x7b
    public class Task
    \x7b
        public static Task CompletedTask \x7b get; \x7d
        public static Task Delay(int millisecondsDelay);
        public void Wait();
    \x7d

    public class Task<TResult> : Task \x7b public TResult Result \x7b get; \x7d \x7d
\x7d

"

/-- Entities, plugins and the services they use. -/
def sdkText : String := "namespace Microsoft.Xrm.Sdk
\x7b
    public class AttributeCollection
    \x7b
        public int Count \x7b get; \x7d
        public object this[string attributeName] \x7b get; set; \x7d
        public bool Contains(string key);
        public bool ContainsKey(string key);
        public void Add(string key, object value);
        public bool Remove(string key);
    \x7d

    public class Entity
    \x7b
        public Entity();
        public Entity(string entityName);
        public Entity(string entityName, Guid id);
        public Guid Id \x7b get; set; \x7d
        public string LogicalName \x7b get; set; \x7d
        public AttributeCollection Attributes \x7b get; set; \x7d
        public object this[string attributeName] \x7b get; set; \x7d
        public bool Contains(string attributeName);
        public T GetAttributeValue<T>(string attributeLogicalName);
        public T ToEntity<T>() where T : Entity;
        public EntityReference ToEntityReference();
    \x7d

    public class EntityReference
    \x7b
        public EntityReference();
        public EntityReference(string logicalName, Guid id);
        public Guid Id \x7b get; set; \x7d
        public string LogicalName \x7b get; set; \x7d
        public string Name \x7b get; set; \x7d
    \x7d

    public class OptionSetValue \x7b public OptionSetValue(); public OptionSetValue(int value); public int Value \x7b get; set; \x7d \x7d
    public class Money \x7b public Money(); public Money(decimal value); public decimal Value \x7b get; set; \x7d \x7d
    public class EntityCollection \x7b public List<Entity> Entities \x7b get; \x7d public string EntityName \x7b get; set; \x7d \x7d

    public class ParameterCollection
    \x7b
        public int Count \x7b get; \x7d
        public object this[string key] \x7b get; set; \x7d
        public bool Contains(string key);
        public bool ContainsKey(string key);
        public bool TryGetValue<T>(string key, out T value);
    \x7d

    public class EntityImageCollection
    \x7b
        public Entity this[string key] \x7b get; set; \x7d
        public bool Contains(string key);
        public bool ContainsKey(string key);
    \x7d

    public interface IPlugin \x7b void Execute(IServiceProvider serviceProvider); \x7d

    public interface IExecutionContext
    \x7b
        string MessageName \x7b get; \x7d
        string PrimaryEntityName \x7b get; \x7d
        Guid PrimaryEntityId \x7b get; \x7d
        Guid UserId \x7b get; \x7d
        Guid InitiatingUserId \x7b get; \x7d
        int Depth \x7b get; \x7d
        int Mode \x7b get; \x7d
        ParameterCollection InputParameters \x7b get; \x7d
        ParameterCollection OutputParameters \x7b get; \x7d
        ParameterCollection SharedVariables \x7b get; \x7d
        EntityImageCollection PreEntityImages \x7b get; \x7d
        EntityImageCollection PostEntityImages \x7b get; \x7d
    \x7d

    public interface IPluginExecutionContext : IExecutionContext
    \x7b
        int Stage \x7b get; \x7d
        IPluginExecutionContext ParentContext \x7b get; \x7d
    \x7d

    public class OrganizationRequest \x7b public string RequestName \x7b get; set; \x7d public ParameterCollection Parameters \x7b get; set; \x7d \x7d
    public class OrganizationResponse \x7b public ParameterCollection Results \x7b get; set; \x7d \x7d

    public interface IOrganizationService
    \x7b
        Guid Create(Entity entity);
        void Update(Entity entity);
        void Delete(string entityName, Guid id);
        Entity Retrieve(string entityName, Guid id, ColumnSet columnSet);
        EntityCollection RetrieveMultiple(QueryBase query);
        OrganizationResponse Execute(OrganizationRequest request);
    \x7d

    public interface IOrganizationServiceFactory \x7b IOrganizationService CreateOrganizationService(Guid? userId); \x7d
    public interface ITracingService \x7b void Trace(string format, params object[] args); \x7d

    public class InvalidPluginExecutionException : Exception
    \x7b
        public InvalidPluginExecutionException(string message);
        public InvalidPluginExecutionException(string message, Exception inner);
    \x7d
\x7d

"

/-- Queries for entities. -/
def queryText : String := "namespace Microsoft.Xrm.Sdk.Query
\x7b
    public enum ConditionOperator \x7b Equal, NotEqual, GreaterThan, LessThan, Null, NotNull, In, Like \x7d

    public class ColumnSet
    \x7b
        public ColumnSet();
        public ColumnSet(bool allColumns);
        public ColumnSet(params string[] columns);
        public void AddColumns(params string[] columns);
    \x7d

    public abstract class QueryBase \x7b \x7d

    public class FilterExpression
    \x7b
        public void AddCondition(string attributeName, ConditionOperator conditionOperator, params object[] values);
    \x7d

    public class QueryExpression : QueryBase
    \x7b
        public QueryExpression();
        public QueryExpression(string entityName);
        public string EntityName \x7b get; set; \x7d
        public ColumnSet ColumnSet \x7b get; set; \x7d
        public FilterExpression Criteria \x7b get; set; \x7d
    \x7d
\x7d
"

/-- The whole text. -/
def source : String :=
  importText ++ systemText ++ collectionText ++ taskText ++ sdkText ++ queryText

end PluginLint.Binding.Framework
